import LidoDao.DepositProgress

namespace LidoDao

open Evm Library.Outcome Library.ByteWords Library.Transition NodeOperatorsRegistry
open DepositContract OfficialDepositContract

variable {D : Deployment} {L : SigningKeyLayout} {G : Guarding} {R ρ : Type}

def acceptsAll (_ : List DepositCall) (_ : DepositCall) : Bool := true

namespace Lido

variable {c : LidoCall D} {s : Lido} {deposits : List DepositCall} {p : Lido × List DepositCall}
  {I : INodeOperatorsRegistry R ρ} {w w' : World R}

theorem _stake_acceptsAll {pubkey signature : Bytes}
    (h : _stake D c pubkey signature s deposits = .ok p) :
    _stake D (c.answered acceptsAll) pubkey signature s deposits = .ok p := by
  simp only [_stake, bind_eq_ok, require_eq_ok, exists_const] at h ⊢
  obtain ⟨hcredentials, amount, hamount, rounded, hrounded, hexact, root, hroot, rest, hrest, _, h⟩ := h
  exact ⟨hcredentials, amount, hamount, rounded, hrounded, hexact, root, hroot, rest, hrest, rfl, h⟩

theorem stakeKeys_acceptsAll {pubkeys signatures : Bytes} {is : List ℕ}
    (h : stakeKeys D c pubkeys signatures is s deposits = .ok p) :
    stakeKeys D (c.answered acceptsAll) pubkeys signatures is s deposits = .ok p := by
  induction is generalizing s deposits with
  | nil => exact h
  | cons i is ih =>
    simp only [stakeKeys, bind_eq_ok] at h ⊢
    obtain ⟨pubkey, hpubkey, signature, hsignature, q, hstake, h⟩ := h
    exact ⟨pubkey, hpubkey, signature, hsignature, q, _stake_acceptsAll hstake, ih h⟩

theorem _ETH2Deposit_acceptsAll {wanted : ℕ} {q : ℕ × World R}
    (h : _ETH2Deposit D I c wanted w = .ok q) :
    _ETH2Deposit D I (c.answered acceptsAll) wanted w = .ok q := by
  simp only [_ETH2Deposit, bind_eq_ok] at h ⊢
  obtain ⟨⟨⟨pubkeys, signatures⟩, registry⟩, hassign, h⟩ := h
  refine ⟨_, hassign, ?_⟩
  dsimp only at h ⊢
  split at h
  · rename_i hnone
    rw [if_pos hnone]
    exact h
  · rename_i hsome
    rw [if_neg hsome]
    simp only [bind_eq_ok, require_eq_ok, exists_const] at h ⊢
    obtain ⟨_, hpubkeys, hwhole, _, hsignatures, hwhole', n, hn, m, hm, hcount, q, hstake, h⟩ := h
    exact ⟨_, hpubkeys, hwhole, _, hsignatures, hwhole', n, hn, m, hm, hcount, q,
      stakeKeys_acceptsAll hstake, h⟩

theorem _depositBufferedEther_acceptsAll {maxDeposits : ℕ}
    (h : _depositBufferedEther D I c maxDeposits w = .ok w') :
    _depositBufferedEther D I (c.answered acceptsAll) maxDeposits w = .ok w' := by
  simp only [_depositBufferedEther, bind_eq_ok] at h ⊢
  obtain ⟨_, hactive, buffered, hbuffered, h⟩ := h
  refine ⟨_, hactive, buffered, hbuffered, ?_⟩
  split at h
  · rename_i hle
    rw [if_pos hle]
    simp only [bind_eq_ok, require_eq_ok, exists_const] at h ⊢
    obtain ⟨unaccounted, hunaccounted, n, hn, q, hdeposit, h⟩ := h
    exact ⟨unaccounted, hunaccounted, n, hn, q, _ETH2Deposit_acceptsAll hdeposit, h⟩
  · rename_i hlt
    rw [if_neg hlt]
    exact h

end Lido

section Room

variable {w w' : World NodeOperatorsRegistry} {c : LidoCall D} {k : OfficialDepositContract}

/-- The contract has room for what the pool deposits from one state to another. -/
def RoomFor (k : OfficialDepositContract) (w w' : World NodeOperatorsRegistry) : Prop :=
  w'.deposits.length = w.deposits.length ∨
    k.depositCount + (w'.deposits.length - w.deposits.length) ≤ maxDepositCount

theorem Lido._depositBufferedEther_of_room {maxDeposits : ℕ} (hs : JointSane D w)
    (hc : Answers D c k w.deposits.length) (hused : w.deposits.length ≤ maxDepositCount)
    (h : _depositBufferedEther D (registryContract D L) (c.answered acceptsAll) maxDeposits w =
      .ok w')
    (hroom : RoomFor k w w') :
    _depositBufferedEther D (registryContract D L) c maxDeposits w = .ok w' := by
  have hlength := deposits_length_eq hs h
  have hactive : w.lido.activeFlag = true := by
    obtain ⟨_, hactive, _⟩ := bind_eq_ok.mp h
    exact require_eq_ok.mp hactive
  have hcan : CanDeposit w maxDeposits k.depositCount := by
    refine or_iff_not_imp_left.mpr fun hsome ↦ ⟨?_, ?_⟩
    · rcases _depositBufferedEther_stakes h with heq | ⟨_, _, _, _, hstake, heq⟩
      · rw [heq] at hlength
        omega
      · refine (stakeKeys_credentials hstake).resolve_left fun hsame ↦ ?_
        rw [heq, hsame] at hlength
        omega
    · have hroom := hroom.resolve_left (by omega)
      rwa [hlength, Nat.add_sub_cancel_left] at hroom
  obtain ⟨w₁, hw₁⟩ := (depositBufferedEther_isOk_iff (L := L) hs hc hused).mpr ⟨hactive, hcan⟩
  have hsame := (_depositBufferedEther_acceptsAll hw₁).symm.trans h
  rw [hw₁, Except.ok.inj hsame]

theorem Lido.roomFor_of_depositBufferedEther {maxDeposits : ℕ} (hs : JointSane D w)
    (hc : Answers D c k w.deposits.length)
    (h : _depositBufferedEther D (registryContract D L) c maxDeposits w = .ok w') :
    RoomFor k w w' := by
  obtain ⟨k', hk'⟩ := _depositBufferedEther_taken hc h
  rcases (execute_count hk').2 with hnone | hroom
  · have hlength := deposits_length_eq hs h
    have hzero := congrArg List.length hnone
    rw [List.length_drop, List.length_nil] at hzero
    exact .inl (by omega)
  · rw [List.length_drop] at hroom
    exact .inr hroom

end Room

section Event

variable {w w' : World NodeOperatorsRegistry} {k : OfficialDepositContract}
  {e : Event D (RegistryCall D)} {accepts : List DepositCall → DepositCall → Bool}

theorem Event.answered_maxDeposits (e : Event D ρ) :
    (e.answered accepts).maxDeposits = e.maxDeposits := by
  cases e with
  | lido c m => cases m <;> rfl
  | _ => rfl

theorem World.step_answered_iff (hs : JointSane D w) (hused : w.deposits.length ≤ maxDepositCount)
    (haccepts : ∀ c, Lido.Answers D (LidoCall.answered accepts c) k w.deposits.length) :
    (jointSystem D L).step w (e.answered accepts) = .ok w' ↔
      (jointSystem D L).step w (e.answered acceptsAll) = .ok w' ∧ RoomFor k w w' := by
  have hother (he : e.maxDeposits = none)
      (hsame : (jointSystem D L).step w (e.answered accepts) =
        (jointSystem D L).step w (e.answered acceptsAll)) :
      (jointSystem D L).step w (e.answered accepts) = .ok w' ↔
        (jointSystem D L).step w (e.answered acceptsAll) = .ok w' ∧ RoomFor k w w' := by
    rw [hsame]
    refine (and_iff_left_of_imp fun h ↦ .inl (congrArg List.length ?_)).symm
    exact step_deposits_eq ((e.answered_maxDeposits).trans he) h
  cases e with
  | registry | forceEther | fundVault | deployVault => exact hother rfl rfl
  | lido c m =>
    cases m with
    | depositBufferedEther | depositBufferedEtherUpTo n =>
      constructor
      · intro h
        obtain ⟨_, hauth, hdeposit⟩ := bind_eq_ok.mp h
        have hagreed := Lido._depositBufferedEther_acceptsAll (c := c.answered accepts) hdeposit
        exact ⟨bind_eq_ok.mpr ⟨_, hauth, hagreed⟩,
          Lido.roomFor_of_depositBufferedEther hs (haccepts c) hdeposit⟩
      · intro h
        obtain ⟨h, hroom⟩ := h
        obtain ⟨_, hauth, hdeposit⟩ := bind_eq_ok.mp h
        exact bind_eq_ok.mpr ⟨_, hauth,
          Lido._depositBufferedEther_of_room hs (haccepts c) hused hdeposit hroom⟩
    | _ => exact hother rfl rfl

end Event

namespace ChainWorld

variable {s s' : ChainWorld} {e : GuardedEvent D G} {g : GuardedWorld}

theorem step_deposit_eq_ok {c : GuardedCall D G} {a : DepositSecurityModule.Attestation}
    {g g' : GuardedWorld} :
    (guardedSystem D L G).step g (.deposit c a) = .ok g' ↔
      (jointSystem D L).step g.world
        (.lido c.pool (.depositBufferedEtherUpTo g.dsm.maxDepositsPerBlock)) = .ok g'.world ∧
      g.dsm.depositBufferedEther G.precompiles (g.getKeysOpIndex D G c) (fun _ ↦ .ok g'.world)
        c.toModuleCall a = .ok (g'.dsm, g'.world) := by
  have hstep : (guardedSystem D L G).step g (.deposit c a) = .ok g' ↔
      g.dsm.depositBufferedEther G.precompiles (g.getKeysOpIndex D G c) (fun maxDeposits ↦
        (jointSystem D L).step g.world (.lido c.pool (.depositBufferedEtherUpTo maxDeposits)))
        c.toModuleCall a = .ok (g'.dsm, g'.world) := by
    constructor
    · intro h
      obtain ⟨_, hdeposit, hg⟩ := bind_eq_ok.mp h
      cases hg
      exact hdeposit
    · intro h
      exact bind_eq_ok.mpr ⟨_, h, rfl⟩
  rw [hstep, DepositSecurityModule.depositBufferedEther_eq_ok,
    DepositSecurityModule.depositBufferedEther_eq_ok]
  tauto

theorem step_answered_iff (h : Reachable (chainSystem D L G) s) :
    (guardedSystem D L G).step s.guarded (e.answered (s.accepts D) (s.depositRoot D)) = .ok g ↔
      (guardedSystem D L G).step s.guarded (e.answered acceptsAll (s.depositRoot D)) = .ok g ∧
        RoomFor s.contract s.guarded.world g.world := by
  have hs := jointSane (GuardedWorld.reachable_world (reachable_guarded h))
  have hused := (sublist_log h).length_le.trans
    (Represents.of_reachable (reachable_contract h)).length_le
  have haccepts (c : LidoCall D) : Lido.Answers D (c.answered (s.accepts D)) s.contract
      s.guarded.world.deposits.length := fun _ _ ↦ rfl
  have hworld (e : Event D (RegistryCall D)) (w : World NodeOperatorsRegistry) :
      (jointSystem D L).step s.guarded.world (e.answered (s.accepts D)) = .ok w ↔
        (jointSystem D L).step s.guarded.world (e.answered acceptsAll) = .ok w ∧
          RoomFor s.contract s.guarded.world w := World.step_answered_iff hs hused haccepts
  cases e with
  | world e hsender =>
    constructor
    · intro h
      obtain ⟨w, hw, hg⟩ := bind_eq_ok.mp h
      cases hg
      obtain ⟨hw, hroom⟩ := (hworld e w).mp hw
      exact ⟨bind_eq_ok.mpr ⟨w, hw, rfl⟩, hroom⟩
    · intro h
      obtain ⟨h, hroom⟩ := h
      obtain ⟨w, hw, hg⟩ := bind_eq_ok.mp h
      cases hg
      exact bind_eq_ok.mpr ⟨w, (hworld e w).mpr ⟨hw, hroom⟩, rfl⟩
  | dsm c m =>
    refine (and_iff_left_of_imp fun h ↦ ?_).symm
    obtain ⟨dsm, _, hg⟩ := bind_eq_ok.mp h
    cases hg
    exact .inl rfl
  | deposit c a =>
    have hpool (maxDeposits : ℕ) := hworld (.lido c.pool (.depositBufferedEtherUpTo maxDeposits))
    constructor
    · intro h
      obtain ⟨hdeposit, hguards⟩ := step_deposit_eq_ok.mp h
      obtain ⟨hdeposit, hroom⟩ := (hpool _ _).mp hdeposit
      exact ⟨step_deposit_eq_ok.mpr ⟨hdeposit, hguards⟩, hroom⟩
    · intro h
      obtain ⟨h, hroom⟩ := h
      obtain ⟨hdeposit, hguards⟩ := step_deposit_eq_ok.mp h
      exact step_deposit_eq_ok.mpr ⟨(hpool _ _).mpr ⟨hdeposit, hroom⟩, hguards⟩

/-- Every deposit of the pool is one of the contract's, in the same order and with a root that
the contract computes itself, whoever else deposits in between. The contract stands in the way
of a step only when its tree is full. -/
theorem pool_and_contract_agree (h : Reachable (chainSystem D L G) s) :
    s.guarded.world.deposits.Sublist s.log ∧ s.contract.depositCount = s.log.length ∧
    s.guarded.world.lido.depositedValidators ≤ s.log.length ∧
    (∀ d ∈ s.guarded.world.deposits, DepositContract.WellFormed d ∧
      DepositContract.computedRoot D.sha256 d = d.depositDataRoot) ∧
    ∀ e, (∀ g, (∃ s', (chainSystem D L G).step s (.guarded e) = .ok s' ∧ s'.guarded = g) ↔
        (guardedSystem D L G).step s.guarded (e.answered acceptsAll (s.depositRoot D)) = .ok g ∧
          RoomFor s.contract s.guarded.world g.world) ∧
      ∀ s', (chainSystem D L G).step s (.guarded e) = .ok s' → ∃ new, s'.log = s.log ++ new ∧
        s'.guarded.world.deposits = s.guarded.world.deposits ++ new := by
  have hk := Represents.of_reachable (reachable_contract h)
  have hsublist := sublist_log h
  have hs := jointSane (GuardedWorld.reachable_world (reachable_guarded h))
  refine ⟨hsublist, hk.depositCount, ?_, fun d hd ↦ hk.wellFormed d (hsublist.subset hd),
    fun e ↦ ⟨fun g ↦ ?_, fun s' hstep ↦ ?_⟩⟩
  · rw [← hs.deposits]
    exact hsublist.length_le
  · rw [← step_answered_iff h]
    constructor
    · intro hstep
      obtain ⟨s', hstep, rfl⟩ := hstep
      exact (step_guarded.mp hstep).1
    · intro hg
      obtain ⟨s', hstep⟩ := guarded_isOk_iff.mpr ⟨g, hg⟩
      exact ⟨s', hstep, Except.ok.inj ((step_guarded.mp hstep).1.symm.trans hg)⟩
  · obtain ⟨hg, _, hlog⟩ := step_guarded.mp hstep
    exact ⟨_, hlog, deposits_eq hg⟩

end ChainWorld

namespace Sample

open OfficialDepositContract.Sample (deposit)

/-- Somebody else deposits first, then the pool. -/
theorem pool_deposits_after_another : ∃ s s',
    Reachable (chainSystem deployment layout guarding) s ∧
    (chainSystem deployment layout guarding).step s
      (.guarded (.deposit (guardedCall 20) (chainAttestation 2))) = .ok s' ∧
    s.log.length = 1 ∧ RoomFor s.contract s.guarded.world s'.guarded.world ∧
    ∃ new, s'.log = s.log ++ new ∧
      s'.guarded.world.deposits = s.guarded.world.deposits ++ new := by
  have hrun : reaches (jointSystem deployment layout) start depositRun (fun w ↦
      decide (w.deposits = []) &&
      reaches (chainSystem deployment layout guarding)
        ⟨⟨deployedModule, w⟩, constructor deployment.sha256, []⟩
        (setupModule.map .guarded) fun s ↦
          reaches (chainSystem deployment layout guarding) s [.deposit deposit] fun s₁ ↦
            decide (s₁.log.length = 1) &&
            reaches (chainSystem deployment layout guarding) s₁
              [.guarded (.deposit (guardedCall 20) (chainAttestation 2))] fun _ ↦ true) = true := by
    decide +kernel
  obtain ⟨s, hs, hq⟩ := chain_of_run hrun
  obtain ⟨s₁, hs₁, hq⟩ := hs.of_reaches hq
  rw [Bool.and_eq_true, decide_eq_true_eq] at hq
  obtain ⟨s', hstep, _⟩ := step_of_reaches hq.2
  obtain ⟨_, _, _, _, hevents⟩ := ChainWorld.pool_and_contract_agree hs₁
  obtain ⟨hiff, hnew⟩ := hevents (.deposit (guardedCall 20) (chainAttestation 2))
  exact ⟨s₁, s', hs₁, hstep, hq.1, ((hiff _).mp ⟨s', hstep, rfl⟩).2, hnew s' hstep⟩

end Sample

end LidoDao
