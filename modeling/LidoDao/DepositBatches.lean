import LidoDao.DepositProgress
import LidoDao.EvenAssignment

namespace LidoDao

open Evm Library.Outcome Library.ByteWords Library.Transition NodeOperatorsRegistry
open OfficialDepositContract

variable {D : Deployment} {L : SigningKeyLayout} {w w₁ w₂ : World NodeOperatorsRegistry}
  {c : LidoCall D} {n m : ℕ → ℕ} {a b : ℕ}

namespace Lido

variable {R ρ : Type} {I : INodeOperatorsRegistry R ρ}

section Launches

variable (s : Lido) (k l x y : ℕ)

theorem launch_bufferedEther : (s.launch k x).bufferedEther = s.bufferedEther - x := rfl

theorem launch_activeFlag : (s.launch k x).activeFlag = s.activeFlag := rfl

theorem launch_withdrawalCredentials :
    (s.launch k x).withdrawalCredentials = s.withdrawalCredentials := rfl

theorem launch_launch : (s.launch k x).launch l y = s.launch (k + l) (x + y) := by
  simp only [launch, Nat.sub_sub, Nat.add_assoc]

end Launches

def depositFor (D : Deployment) (withdrawalCredentials : ℕ) (key : Bytes × Bytes) : DepositCall where
  value := depositSize
  pubkey := key.1
  withdrawalCredentials := toBytes 32 withdrawalCredentials
  signature := key.2
  depositDataRoot := match depositDataRoot D key.1 key.2 withdrawalCredentials
      (depositSize / depositAmountUnit) with
    | .ok root => root
    | .error _ => 0

theorem depositFor_eq {withdrawalCredentials root : ℕ} {key : Bytes × Bytes}
    (h : depositDataRoot D key.1 key.2 withdrawalCredentials (depositSize / depositAmountUnit) =
      .ok root) : depositFor D withdrawalCredentials key =
        { value := depositSize, pubkey := key.1
          withdrawalCredentials := toBytes 32 withdrawalCredentials
          signature := key.2, depositDataRoot := root } := by
  simp only [depositFor, h]

theorem _stake_made {pubkey signature : Bytes} {s : Lido} {deposits : List DepositCall}
    {p : Lido × List DepositCall} (h : _stake D c pubkey signature s deposits = .ok p) :
    p.1.withdrawalCredentials = s.withdrawalCredentials ∧
    p.2 = deposits ++ [depositFor D s.withdrawalCredentials (pubkey, signature)] := by
  obtain ⟨_, hlido, _⟩ := _stake_ok h
  refine ⟨by rw [hlido, spend], ?_⟩
  simp only [_stake, bind_eq_ok, require_eq_ok, exists_const, pure_eq, Except.ok.injEq] at h
  obtain ⟨_, amount, hamount, _, _, _, root, hroot, _, _, _, _, hp⟩ := h
  rw [(SafeMath.div_eq_ok.mp hamount).2] at hroot
  rw [← hp, depositFor_eq hroot]

theorem stakeKeys_made {pubkeys signatures : Bytes} {is : List ℕ} {s : Lido}
    {deposits : List DepositCall} {p : Lido × List DepositCall}
    (h : stakeKeys D c pubkeys signatures is s deposits = .ok p) :
    ∃ calls, p.2 = deposits ++ calls ∧
      ∀ d ∈ calls, d = depositFor D s.withdrawalCredentials d.key := by
  induction is generalizing s deposits with
  | nil =>
    cases h
    exact ⟨[], (List.append_nil _).symm, List.forall_mem_nil _⟩
  | cons i is ih =>
    simp only [stakeKeys, bind_eq_ok] at h
    obtain ⟨pubkey, _, signature, _, q, hstake, h⟩ := h
    obtain ⟨hcredentials, hfirst⟩ := _stake_made hstake
    obtain ⟨calls, hcalls, hmade⟩ := ih h
    rw [hcredentials] at hmade
    refine ⟨depositFor D s.withdrawalCredentials (pubkey, signature) :: calls, ?_,
      List.forall_mem_cons.mpr ⟨rfl, hmade⟩⟩
    rw [hcalls, hfirst, List.append_assoc, List.singleton_append]

theorem _depositBufferedEther_made {I : INodeOperatorsRegistry R ρ} {w w' : World R}
    (h : _depositBufferedEther D I c a w = .ok w') :
    ∃ calls, w'.deposits = w.deposits ++ calls ∧
      ∀ d ∈ calls, d = depositFor D w.lido.withdrawalCredentials d.key := by
  rcases _depositBufferedEther_stakes h with heq | ⟨_, _, _, p, hstake, heq⟩
  · exact ⟨[], by rw [heq, List.append_nil], List.forall_mem_nil _⟩
  · obtain ⟨calls, hcalls, hmade⟩ := stakeKeys_made hstake
    exact ⟨calls, heq.trans hcalls, hmade⟩

end Lido

theorem possibleDeposits_zero : possibleDeposits w 0 = 0 := by
  rw [possibleDeposits, Nat.min_zero, Nat.zero_min]

theorem CanDeposit.of_add {depositCount : ℕ} (h : CanDeposit w (a + b) depositCount) :
    CanDeposit w a depositCount := by
  rw [CanDeposit, possibleDeposits] at h ⊢
  omega

/-- What deposits of a plan's keys do. -/
structure Batch (D : Deployment) (L : SigningKeyLayout) (w : World NodeOperatorsRegistry)
    (limit : ℕ) (n : ℕ → ℕ) (w' : World NodeOperatorsRegistry) : Prop where
  plan : Plan w.registry (min (w.lido.bufferedEther / Lido.depositSize) limit) n
  fair : NodeOperatorsRegistry.Fair w.registry w.registry.activeIds n
  lido : w'.lido = w.lido.launch (w.registry.ids.map n).sum
    ((w.registry.ids.map n).sum * Lido.depositSize)
  registry : ∃ keysOpIndex, w'.registry = { w.registry.useKeys n with keysOpIndex }
  vaults : w'.vaults = w.vaults
  deposits : ∃ calls, w'.deposits = w.deposits ++ calls ∧
    calls.Perm ((handedOut L w.registry n).map (Lido.depositFor D w.lido.withdrawalCredentials))

namespace Batch

theorem none (limit : ℕ) (h : min (w.lido.bufferedEther / Lido.depositSize) limit = 0) :
    Batch D L w limit (fun _ ↦ 0) w := by
  have hsum : (w.registry.ids.map fun _ ↦ 0).sum = 0 := by
    rw [List.map_const', List.sum_replicate, smul_zero]
  have hkeys : handedOut L w.registry (fun _ ↦ 0) = [] := by
    rw [handedOut, List.flatMap_eq_nil_iff]
    intro id _
    exact nextKeys_zero id
  refine ⟨?_, fair_zero _ _, ?_, ⟨w.registry.keysOpIndex, ?_⟩, rfl, [], ?_, ?_⟩
  · rw [h]
    exact .zero _
  · rw [hsum, Nat.zero_mul]
    rfl
  · rw [useKeys_zero fun _ ↦ rfl]
  · rw [List.append_nil]
  · rw [hkeys, List.map_nil]

theorem of_deposit (hs : JointSane D w)
    (h : Lido._depositBufferedEther D (registryContract D L) c a w = .ok w₁) :
    ∃ n, Batch D L w a n w₁ := by
  obtain ⟨calls, hcalls, hmade⟩ := Lido._depositBufferedEther_made h
  rcases Lido._depositBufferedEther_ok h with ⟨hlt, rfl⟩ |
    ⟨_, count, amount, keys, registry, calls', hbatch, hamount, _, rfl⟩
  · refine ⟨_, .none a ?_⟩
    rw [Nat.div_eq_of_lt hlt, Nat.zero_min]
  · obtain ⟨⟨n, hkeys⟩, hcount⟩ := hbatch.keysDeposited hs.registry
    obtain ⟨k, hplan, hfair, hok⟩ := assignNextSigningKeys_ok (L := L) hs.registry
      (min (w.lido.bufferedEther / Lido.depositSize) a)
    obtain ⟨keysOpIndex, hregistry⟩ := hkeys.registry
    have hassigned := (Prod.mk.inj (Except.ok.inj (hbatch.assigned.symm.trans hok))).2
    obtain rfl : n = k := by
      funext id
      have hused := congrArg (fun r ↦ (r.operators id).usedSigningKeys)
        (hregistry.symm.trans hassigned)
      exact Nat.add_left_cancel hused
    obtain rfl : calls' = calls := List.append_cancel_left hcalls
    have hsum : (w.registry.ids.map n).sum = count := by rw [hplan.total, hcount]
    have hmap : calls' = (handedOut L w.registry n).map
        (Lido.depositFor D w.lido.withdrawalCredentials) := by
      rw [← hkeys.keys, List.map_map]
      exact (List.map_id calls').symm.trans (List.map_congr_left hmade)
    refine ⟨n, hplan, hfair, ?_, ⟨keysOpIndex, hregistry⟩, rfl, calls', rfl, .of_eq hmap⟩
    rw [hsum, ← hamount]

theorem sum_eq (h : Batch D L w a n w₁) :
    (w.registry.ids.map n).sum = possibleDeposits w a := h.plan.total

theorem ids_eq (h : Batch D L w a n w₁) : w₁.registry.ids = w.registry.ids := by
  obtain ⟨keysOpIndex, hregistry⟩ := h.registry
  rw [hregistry]
  rfl

theorem withdrawalCredentials_eq (h : Batch D L w a n w₁) :
    w₁.lido.withdrawalCredentials = w.lido.withdrawalCredentials := by
  rw [h.lido, Lido.launch_withdrawalCredentials]

theorem leftover (hs : JointSane D w) (h : Batch D L w a n w₁) :
    w₁.lido.bufferedEther / Lido.depositSize =
      w.lido.bufferedEther / Lido.depositSize - possibleDeposits w a ∧
    w₁.registry.capacity + possibleDeposits w a = w.registry.capacity := by
  obtain ⟨keysOpIndex, hregistry⟩ := h.registry
  constructor
  · rw [h.lido, Lido.launch_bufferedEther, Nat.mul_comm, Nat.sub_mul_div, h.sum_eq]
  · rw [hregistry]
    exact h.plan.capacity_handOut hs.registry

theorem possible_add (hs : JointSane D w) (h : Batch D L w a n w₁) (b : ℕ) :
    possibleDeposits w (a + b) = possibleDeposits w a + possibleDeposits w₁ b := by
  obtain ⟨hbuffer, hcapacity⟩ := h.leftover hs
  have hfirst : possibleDeposits w a =
      min (min (w.lido.bufferedEther / Lido.depositSize) a) w.registry.capacity := rfl
  rw [possibleDeposits, possibleDeposits.eq_def w₁, hbuffer]
  omega

theorem sum_add (hs : JointSane D w) (h : Batch D L w a n w₁) (h' : Batch D L w₁ b m w₂) :
    (w.registry.ids.map fun id ↦ n id + m id).sum = possibleDeposits w (a + b) := by
  rw [List.sum_map_add, h.possible_add hs, h.sum_eq, ← h.ids_eq, h'.sum_eq]

theorem handedOut_add (r : NodeOperatorsRegistry) (n m : ℕ → ℕ) (keysOpIndex : ℕ) :
    (handedOut L r n ++ handedOut L { r.useKeys n with keysOpIndex } m).Perm
      (handedOut L r fun id ↦ n id + m id) := by
  have hnext (id : ℕ) : nextKeys L r id (n id + m id) =
      nextKeys L r id (n id) ++ nextKeys L { r.useKeys n with keysOpIndex } id (m id) := by
    rw [nextKeys, List.take_add, List.drop_drop]
    rfl
  simp only [handedOut, hnext]
  exact List.flatMap_append_perm _ _ _

theorem trans (hs : JointSane D w) (h : Batch D L w a n w₁) (h' : Batch D L w₁ b m w₂) :
    Batch D L w (a + b) (fun id ↦ n id + m id) w₂ := by
  obtain ⟨keysOpIndex, hregistry⟩ := h.registry
  obtain ⟨keysOpIndex', hregistry'⟩ := h'.registry
  obtain ⟨calls, hcalls, hperm⟩ := h.deposits
  obtain ⟨calls', hcalls', hperm'⟩ := h'.deposits
  have hplan := h'.plan
  have hfair := h'.fair
  have hlido := h'.lido
  rw [h.withdrawalCredentials_eq] at hperm'
  rw [h.ids_eq, h.lido, Lido.launch_launch, ← Nat.add_mul, ← List.sum_map_add] at hlido
  rw [hregistry] at hplan hfair hregistry' hperm'
  -- A plan does not depend on the index, in which the two registries may differ.
  have hrest : Plan (w.registry.handOut (min (w.lido.bufferedEther / Lido.depositSize) a) n)
      (min (w₁.lido.bufferedEther / Lido.depositSize) b) m :=
    ⟨hplan.le_capacity, hplan.inactive, hplan.total⟩
  have hboth := h.plan.add hs.registry hrest
  refine ⟨⟨hboth.le_capacity, hboth.inactive, h.sum_add hs h'⟩,
    h.fair.handOut h.plan hs.registry hfair, hlido, ⟨keysOpIndex', ?_⟩, h'.vaults.trans h.vaults,
    calls ++ calls', ?_, ?_⟩
  · rw [hregistry', ← useKeys_useKeys]
    rfl
  · rw [hcalls', hcalls, List.append_assoc]
  · refine (hperm.append hperm').trans ?_
    rw [← List.map_append]
    exact (handedOut_add w.registry n m keysOpIndex).map _

end Batch

/-- A deposit call of somebody who holds the role for it and is not the module. -/
structure DepositorCall (D : Deployment) (G : Guarding) where
  call : LidoCall D
  maxDeposits : Option ℕ
  sender_ne_dsm : call.sender ≠ G.dsm
  role : call.canPerform .depositRole [] = true

namespace DepositorCall

variable {G : Guarding}

/-- Without an argument the call has a limit of its own. -/
def limit (p : DepositorCall D G) : ℕ := p.maxDeposits.getD Lido.defaultMaxDepositsPerCall

def message (p : DepositorCall D G) : LidoMessage :=
  match p.maxDeposits with
  | none => .depositBufferedEther
  | some maxDeposits => .depositBufferedEtherUpTo maxDeposits

theorem sender_ne (p : DepositorCall D G) (c : LidoCall D) (m : LidoMessage)
    (h : (Event.lido p.call p.message : Event D (RegistryCall D)) = .lido c m) : c.sender ≠ G.dsm := by
  cases h
  exact p.sender_ne_dsm

def event (p : DepositorCall D G) : ChainEvent D G :=
  .guarded (.world (.lido p.call p.message) p.sender_ne)

def events (calls : List (DepositorCall D G)) : List (ChainEvent D G) := calls.map event

def total (calls : List (DepositorCall D G)) : ℕ := (calls.map limit).sum

theorem handle_eq (p : DepositorCall D G) (accepts : List DepositCall → DepositCall → Bool) :
    World.handle D (registryContract D L) (p.call.answered accepts) p.message w =
      Lido._depositBufferedEther D (registryContract D L) (p.call.answered accepts) p.limit w := by
  have hauth : (p.call.answered accepts).auth .depositRole [] = .ok () := require_of p.role
  cases hlimit : p.maxDeposits with
  | none =>
    rw [message, limit, hlimit]
    exact congrArg (· >>= _) hauth
  | some maxDeposits =>
    rw [message, limit, hlimit]
    exact congrArg (· >>= _) hauth

end DepositorCall

namespace ChainWorld

variable {G : Guarding} {s s' s₁ s₂ : ChainWorld} {calls calls' : List (DepositorCall D G)}

/-- What deposits of a plan's keys do on the chain. -/
structure Deposited (D : Deployment) (L : SigningKeyLayout) (s : ChainWorld) (limit : ℕ)
    (n : ℕ → ℕ) (s' : ChainWorld) : Prop where
  batch : Batch D L s.guarded.world limit n s'.guarded.world
  dsm : s'.guarded.dsm = s.guarded.dsm
  log : ∃ calls, s'.log = s.log ++ calls ∧
    s'.guarded.world.deposits = s.guarded.world.deposits ++ calls

namespace Deposited

theorem none (s : ChainWorld) : Deposited D L s 0 (fun _ ↦ 0) s :=
  ⟨.none 0 (Nat.min_zero _), rfl, [], (List.append_nil _).symm, (List.append_nil _).symm⟩

theorem trans (hs : JointSane D s.guarded.world) (h : Deposited D L s a n s₁)
    (h' : Deposited D L s₁ b m s₂) : Deposited D L s (a + b) (fun id ↦ n id + m id) s₂ := by
  obtain ⟨new, hlog, hdeposits⟩ := h.log
  obtain ⟨new', hlog', hdeposits'⟩ := h'.log
  refine ⟨h.batch.trans hs h'.batch, h'.dsm.trans h.dsm, new ++ new', ?_, ?_⟩
  · rw [hlog', hlog, List.append_assoc]
  · rw [hdeposits', hdeposits, List.append_assoc]

theorem made (h : Deposited D L s a n s₁) : ∃ new, s₁.log = s.log ++ new ∧
    s₁.guarded.world.deposits = s.guarded.world.deposits ++ new ∧
    new.Perm ((handedOut L s.guarded.world.registry n).map
      (Lido.depositFor D s.guarded.world.lido.withdrawalCredentials)) := by
  obtain ⟨new, hlog, hdeposits⟩ := h.log
  obtain ⟨calls, hcalls, hperm⟩ := h.batch.deposits
  obtain rfl : new = calls := List.append_cancel_left (hdeposits.symm.trans hcalls)
  exact ⟨new, hlog, hdeposits, hperm⟩

theorem log_length (h : Deposited D L s a n s₁) :
    s₁.log.length = s.log.length + possibleDeposits s.guarded.world a := by
  obtain ⟨new, hlog, _, hperm⟩ := h.made
  rw [hlog, List.length_append, hperm.length_eq, List.length_map, h.batch.plan.length_handedOut]
  rfl

theorem canDeposit_add (hs : JointSane D s.guarded.world) (h : Deposited D L s a n s₁) (b : ℕ) :
    CanDeposit s.guarded.world (a + b) s.log.length ↔
      CanDeposit s.guarded.world a s.log.length ∧ CanDeposit s₁.guarded.world b s₁.log.length := by
  rw [CanDeposit, CanDeposit, CanDeposit, h.batch.possible_add hs, h.log_length,
    h.batch.withdrawalCredentials_eq]
  omega

end Deposited

section Runs

theorem reachable_sane (h : Reachable (chainSystem D L G) s) : JointSane D s.guarded.world :=
  jointSane (GuardedWorld.reachable_world (reachable_guarded h))

theorem step_event {p : DepositorCall D G} {g : GuardedWorld} :
    (guardedSystem D L G).step s.guarded
        ((GuardedEvent.world (.lido p.call p.message) p.sender_ne).answered (s.accepts D)
          (s.depositRoot D)) = .ok g ↔
      ∃ world, Lido._depositBufferedEther D (registryContract D L) (p.call.answered (s.accepts D))
        p.limit s.guarded.world = .ok world ∧ g = { s.guarded with world } := by
  rw [← p.handle_eq]
  constructor
  · intro h
    obtain ⟨world, hw, heq⟩ := bind_eq_ok.mp h
    exact ⟨world, hw, (Except.ok.inj heq).symm⟩
  · intro h
    obtain ⟨world, hw, rfl⟩ := h
    exact bind_eq_ok.mpr ⟨world, hw, rfl⟩

theorem deposited_of_step (h : Reachable (chainSystem D L G) s) {p : DepositorCall D G}
    (hstep : (chainSystem D L G).step s p.event = .ok s₁) : ∃ n, Deposited D L s p.limit n s₁ := by
  obtain ⟨hg, _, hlog⟩ := step_guarded.mp hstep
  have hdeposits := deposits_eq hg
  obtain ⟨world, hdeposit, heq⟩ := step_event.mp hg
  obtain ⟨n, hbatch⟩ := Batch.of_deposit (reachable_sane h) hdeposit
  refine ⟨n, ?_, ?_, _, hlog, hdeposits⟩
  · rw [heq]
    exact hbatch
  · rw [heq]

theorem event_isOk_iff (h : Reachable (chainSystem D L G) s) (p : DepositorCall D G) :
    (∃ s', (chainSystem D L G).step s p.event = .ok s') ↔
      s.guarded.world.lido.activeFlag = true ∧
        CanDeposit s.guarded.world p.limit s.log.length := by
  have hs := reachable_sane h
  have hk := Represents.of_reachable (reachable_contract h)
  have hanswers : Lido.Answers D (p.call.answered (s.accepts D)) s.contract
      s.guarded.world.deposits.length := fun _ _ ↦ rfl
  have hused := (sublist_log h).length_le.trans hk.length_le
  rw [DepositorCall.event, guarded_isOk_iff, ← hk.depositCount,
    ← depositBufferedEther_isOk_iff (L := L) hs hanswers hused]
  constructor
  · intro hok
    obtain ⟨g, hg⟩ := hok
    obtain ⟨world, hdeposit, _⟩ := step_event.mp hg
    exact ⟨world, hdeposit⟩
  · intro hok
    obtain ⟨world, hdeposit⟩ := hok
    exact ⟨_, step_event.mpr ⟨world, hdeposit, rfl⟩⟩

theorem deposited_of_execute (h : Reachable (chainSystem D L G) s)
    (hrun : execute (chainSystem D L G) s (DepositorCall.events calls) = .ok s') :
    ∃ n, Deposited D L s (DepositorCall.total calls) n s' := by
  induction calls generalizing s with
  | nil =>
    cases hrun
    exact ⟨_, .none _⟩
  | cons p calls ih =>
    obtain ⟨s₁, hstep, hrest⟩ := bind_eq_ok.mp hrun
    obtain ⟨n, hfirst⟩ := deposited_of_step h hstep
    obtain ⟨m, hlast⟩ := ih (h.step hstep) hrest
    exact ⟨_, hfirst.trans (reachable_sane h) hlast⟩

theorem execute_isOk_iff (h : Reachable (chainSystem D L G) s)
    (calls : List (DepositorCall D G)) :
    (∃ s', execute (chainSystem D L G) s (DepositorCall.events calls) = .ok s') ↔
      calls = [] ∨ s.guarded.world.lido.activeFlag = true ∧
        CanDeposit s.guarded.world (DepositorCall.total calls) s.log.length := by
  induction calls generalizing s with
  | nil => exact ⟨fun _ ↦ .inl rfl, fun _ ↦ ⟨s, rfl⟩⟩
  | cons p calls ih =>
    have hs := reachable_sane h
    constructor
    · intro hok
      obtain ⟨s', hrun⟩ := hok
      obtain ⟨s₁, hstep, hrest⟩ := bind_eq_ok.mp hrun
      obtain ⟨n, hfirst⟩ := deposited_of_step h hstep
      obtain ⟨hopen, hcan⟩ := (event_isOk_iff h p).mp ⟨s₁, hstep⟩
      refine .inr ⟨hopen, (hfirst.canDeposit_add hs _).mpr ⟨hcan, ?_⟩⟩
      rcases (ih (h.step hstep)).mp ⟨s', hrest⟩ with rfl | ⟨_, hcan'⟩
      · exact .inl possibleDeposits_zero
      · exact hcan'
    · intro hall
      obtain ⟨hopen, hcan⟩ := hall.resolve_left (List.cons_ne_nil p calls)
      obtain ⟨s₁, hstep⟩ := (event_isOk_iff h p).mpr ⟨hopen, hcan.of_add⟩
      obtain ⟨n, hfirst⟩ := deposited_of_step h hstep
      have hopen₁ : s₁.guarded.world.lido.activeFlag = true := by
        rw [hfirst.batch.lido, Lido.launch_activeFlag]
        exact hopen
      obtain ⟨s', hrest⟩ := (ih (h.step hstep)).mpr
        (.inr ⟨hopen₁, ((hfirst.canDeposit_add hs _).mp hcan).2⟩)
      exact ⟨s', bind_eq_ok.mpr ⟨s₁, hstep, hrest⟩⟩

end Runs

/-- Deposits from one state that differ at most in their order, and in how often the index of
the registry was increased for them. -/
structure AlikeAfter (s s₁ s₂ : ChainWorld) : Prop where
  lido : s₁.guarded.world.lido = s₂.guarded.world.lido
  registry : ∃ keysOpIndex, s₁.guarded.world.registry =
    { s₂.guarded.world.registry with keysOpIndex }
  vaults : s₁.guarded.world.vaults = s₂.guarded.world.vaults
  dsm : s₁.guarded.dsm = s₂.guarded.dsm
  deposits : ∃ new new', s₁.log = s.log ++ new ∧ s₂.log = s.log ++ new' ∧
    s₁.guarded.world.deposits = s.guarded.world.deposits ++ new ∧
    s₂.guarded.world.deposits = s.guarded.world.deposits ++ new' ∧ new.Perm new'

theorem Deposited.unique (h : Deposited D L s a n s₁) (h' : Deposited D L s a m s₂) :
    s.AlikeAfter s₁ s₂ := by
  obtain rfl := h.batch.plan.unique h.batch.fair h'.batch.plan h'.batch.fair
  obtain ⟨keysOpIndex, hregistry⟩ := h.batch.registry
  obtain ⟨_, hregistry'⟩ := h'.batch.registry
  obtain ⟨new, hlog, hdeposits, hperm⟩ := h.made
  obtain ⟨new', hlog', hdeposits', hperm'⟩ := h'.made
  refine ⟨h.batch.lido.trans h'.batch.lido.symm, ⟨keysOpIndex, ?_⟩,
    h.batch.vaults.trans h'.batch.vaults.symm, h.dsm.trans h'.dsm.symm, new, new', hlog, hlog',
    hdeposits, hdeposits', hperm.trans hperm'.symm⟩
  rw [hregistry, hregistry']

/-- However deposits are split into calls, the calls go through exactly when one call for all of
them would, and they leave the same pool, the same keys used, and the same deposits. -/
theorem deposits_split_freely (h : Reachable (chainSystem D L G) s) :
    (∀ calls : List (DepositorCall D G), calls ≠ [] →
      ((∃ s', execute (chainSystem D L G) s (DepositorCall.events calls) = .ok s') ↔
        s.guarded.world.lido.activeFlag = true ∧
          CanDeposit s.guarded.world (DepositorCall.total calls) s.log.length)) ∧
    ∀ calls calls' s₁ s₂, DepositorCall.total calls = DepositorCall.total calls' →
      execute (chainSystem D L G) s (DepositorCall.events calls) = .ok s₁ →
      execute (chainSystem D L G) s (DepositorCall.events calls') = .ok s₂ → s.AlikeAfter s₁ s₂ := by
  constructor
  · intro calls hsome
    rw [execute_isOk_iff h, or_iff_right hsome]
  · intro calls calls' s₁ s₂ htotal hrun hrun'
    obtain ⟨n, hdeposited⟩ := deposited_of_execute h hrun
    obtain ⟨m, hdeposited'⟩ := deposited_of_execute h hrun'
    rw [← htotal] at hdeposited'
    exact hdeposited.unique hdeposited'

end ChainWorld

namespace Sample

def depositor (maxDeposits : Option ℕ) : DepositorCall deployment guarding where
  call := { sender := 5, sender_ne_lido := five_ne_lido, blockNumber := 20
            canPerform := fun _ _ ↦ true, depositAccepts := fun _ _ ↦ false, recoveryVault := 9
            recoveryVault_ne_lido := nine_ne_lido, recoveryAccepts := true, tokenTransfers := true }
  maxDeposits := maxDeposits
  sender_ne_dsm := by decide
  role := rfl

/-- A call for one deposit and one for the others do what a call without an argument does. -/
theorem two_calls_as_one : ∃ s s₁ s₂, Reachable (chainSystem deployment layout guarding) s ∧
    execute (chainSystem deployment layout guarding) s
      (DepositorCall.events [depositor (some 1), depositor (some 149)]) = .ok s₁ ∧
    execute (chainSystem deployment layout guarding) s
      (DepositorCall.events [depositor none]) = .ok s₂ ∧
    possibleDeposits s.guarded.world 150 = 2 ∧
    s₁.guarded.world.lido = s₂.guarded.world.lido := by
  have hrun : reaches (jointSystem deployment layout) start depositRun (fun w ↦
      decide (w.deposits = []) &&
      reaches (chainSystem deployment layout guarding)
        ⟨⟨deployedModule, w⟩, constructor deployment.sha256, []⟩
        (setupModule.map .guarded) fun s ↦
          decide (s.guarded.world.lido.activeFlag = true) &&
          decide (possibleDeposits s.guarded.world 150 = 2 ∧
            s.guarded.world.lido.withdrawalCredentials ≠ 0 ∧ s.log.length = 0)) = true := by
    decide +kernel
  obtain ⟨s, hs, hq⟩ := chain_of_run hrun
  rw [Bool.and_eq_true, decide_eq_true_eq, decide_eq_true_eq] at hq
  obtain ⟨hopen, htwo, hcredentials, hlog⟩ := hq
  have hcan : CanDeposit s.guarded.world 150 s.log.length := by
    refine .inr ⟨hcredentials, ?_⟩
    rw [htwo, hlog]
    norm_num [DepositContract.maxDepositCount, DepositContract.depositContractTreeDepth]
  obtain ⟨hiff, hsame⟩ := ChainWorld.deposits_split_freely hs
  obtain ⟨s₁, hrun₁⟩ := (hiff [depositor (some 1), depositor (some 149)] (List.cons_ne_nil _ _)).mpr
    ⟨hopen, hcan⟩
  obtain ⟨s₂, hrun₂⟩ := (hiff [depositor none] (List.cons_ne_nil _ _)).mpr ⟨hopen, hcan⟩
  exact ⟨s, s₁, s₂, hs, hrun₁, hrun₂, htwo,
    (hsame [depositor (some 1), depositor (some 149)] [depositor none] s₁ s₂ rfl hrun₁ hrun₂).lido⟩

end Sample

end LidoDao
