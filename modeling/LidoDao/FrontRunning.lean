import LidoDao.DepositChain
import LidoDao.DepositCommitment
import LidoDao.GuardianQuorum

namespace LidoDao

open Evm Library.Outcome Library.ByteWords Library.Transition Library.MerkleTree
open NodeOperatorsRegistry OfficialDepositContract DepositSecurityModule

variable {D : Deployment} {L : SigningKeyLayout} {G : Guarding}

def Deployment.hash (D : Deployment) (bs : Bytes) : BitVec 256 := .ofNat 256 (D.sha256 bs)

namespace ChainWorld

/-- What a guardian looks at before it signs: the root and the index are those of now, and
nobody has deposited for a key that is still unused. -/
structure Vetted (D : Deployment) (L : SigningKeyLayout) (s : ChainWorld) (a : Attestation) :
    Prop where
  depositRoot : a.depositRoot = s.depositRoot D
  keysOpIndex : a.keysOpIndex = s.guarded.world.registry.keysOpIndex
  fresh : ∀ key ∈ unusedKeys L s.guarded.world.registry, ∀ d ∈ s.log, d.pubkey ≠ key.1

def message (G : Guarding) (s : ChainWorld) (a : Attestation) : BitVec 256 :=
  s.guarded.dsm.attestMessageHash G.precompiles a.depositRoot a.keysOpIndex a.blockNumber a.blockHash

def Before (D : Deployment) (L : SigningKeyLayout) (G : Guarding) (s₁ s : ChainWorld) : Prop :=
  Reachable (chainSystem D L G) s₁ ∧ Runs (chainSystem D L G) (fun _ _ ↦ True) s₁ s

/-- The guardian signed no such attestation that it did not vet before. -/
def Honest (D : Deployment) (L : SigningKeyLayout) (G : Guarding) (s : ChainWorld) (a : Attestation)
    (g : Address) : Prop :=
  ∀ sig ∈ a.sortedGuardianSignatures, Signs G.precompiles (s.message G a) sig g →
    ∃ s₁, Before D L G s₁ s ∧ s₁.Vetted D L a

variable {s s' s₁ s₂ : ChainWorld}

/-- How a later state relates to an earlier one. -/
structure Later (L : SigningKeyLayout) (s s' : ChainWorld) : Prop where
  log : s.log <+: s'.log
  keysOpIndex : s.guarded.world.registry.keysOpIndex ≤ s'.guarded.world.registry.keysOpIndex
  unusedKeys : s'.guarded.world.registry.keysOpIndex = s.guarded.world.registry.keysOpIndex →
    unusedKeys L s'.guarded.world.registry ⊆ unusedKeys L s.guarded.world.registry

theorem Later.refl (s : ChainWorld) : Later L s s := ⟨List.prefix_rfl, le_rfl, fun _ ↦ subset_rfl⟩

theorem Later.trans (h : Later L s s₁) (h' : Later L s₁ s₂) : Later L s s₂ := by
  refine ⟨h.log.trans h'.log, h.keysOpIndex.trans h'.keysOpIndex, fun hindex ↦ ?_⟩
  have hle := h.keysOpIndex
  have hle' := h'.keysOpIndex
  exact (h'.unusedKeys (by omega)).trans (h.unusedKeys (by omega))

theorem Later.step (h : Reachable (chainSystem D L G) s) {e : ChainEvent D G}
    (hstep : (chainSystem D L G).step s e = .ok s') : Later L s s' := by
  cases e with
  | guarded e =>
    obtain ⟨hg, _, hlog⟩ := step_guarded.mp hstep
    have hguarded := reachable_guarded h
    refine ⟨⟨_, hlog.symm⟩, GuardedWorld.keysOpIndex_step hguarded hg, fun hindex ↦ ?_⟩
    rcases GuardedWorld.step_world hg with heq | ⟨e', hw, _⟩
    · rw [heq]
    · exact unusedKeys_step (jointSane (GuardedWorld.reachable_world hguarded)) hw hindex
  | deposit d =>
    obtain ⟨hguarded, _, hlog⟩ := step_other.mp hstep
    refine ⟨⟨_, hlog.symm⟩, ?_, fun _ ↦ ?_⟩
    · rw [hguarded]
    · rw [hguarded]

theorem Before.later (h : Before D L G s₁ s) : Later L s₁ s := by
  obtain ⟨hreach, hrun⟩ := h
  induction hrun with
  | refl => exact .refl _
  | step hrun _ hstep ih => exact ih.trans (.step (hrun.reachable hreach) hstep)

theorem depositRoot_eq (h : Reachable (chainSystem D L G) s) :
    s.depositRoot D = D.hash (countString D.sha256 s.log) := by
  have hroot := (Represents.of_reachable (reachable_contract h)).getDepositRoot
  exact congrArg (BitVec.ofNat 256) hroot

theorem log_length_lt (h : Reachable (chainSystem D L G) s) : s.log.length < 256 ^ 8 := by
  have hle := (Represents.of_reachable (reachable_contract h)).length_le
  exact hle.trans_lt (by decide)

theorem length_eq_of_countString {sha256 : Bytes → ℕ} {ds ds' : List DepositCall}
    (h : ds.length < 256 ^ 8) (h' : ds'.length < 256 ^ 8)
    (heq : countString sha256 ds = countString sha256 ds') : ds.length = ds'.length := by
  obtain ⟨hfront, _⟩ := List.append_inj heq (by simp)
  obtain ⟨_, hcount⟩ := List.append_inj hfront (by simp)
  exact toBytes_inj h h' (List.reverse_inj.mp hcount)

theorem log_eq_of_root (hbefore : Before D L G s₁ s) (hroot : s₁.depositRoot D = s.depositRoot D) :
    s₁.log = s.log ∨
      Collides D.hash {countString D.sha256 s₁.log} {countString D.sha256 s.log} := by
  have h : Reachable (chainSystem D L G) s := hbefore.2.reachable hbefore.1
  refine (em _).elim .inr fun hno ↦ .inl (hbefore.later.log.eq_of_length ?_)
  rw [depositRoot_eq hbefore.1, depositRoot_eq h] at hroot
  exact length_eq_of_countString (log_length_lt hbefore.1) (log_length_lt h)
    (eq_of_not_collides hno rfl rfl hroot)

/-- What one honest guardian among the signers is enough for. -/
theorem Vetted.fresh_now (hbefore : Before D L G s₁ s) {a : Attestation} (hvetted : s₁.Vetted D L a)
    (hroot : a.depositRoot = s.depositRoot D)
    (hindex : a.keysOpIndex = s.guarded.world.registry.keysOpIndex) :
    (∀ key ∈ unusedKeys L s.guarded.world.registry, ∀ d ∈ s.log, d.pubkey ≠ key.1) ∨
      Collides D.hash {countString D.sha256 s₁.log} {countString D.sha256 s.log} := by
  rcases log_eq_of_root hbefore (hvetted.depositRoot.symm.trans hroot) with hlog | hcollides
  · left
    intro key hkey d hd
    rw [← hlog] at hd
    have hsame := hindex.symm.trans hvetted.keysOpIndex
    exact hvetted.fresh key (hbefore.later.unusedKeys hsame hkey) d hd
  · exact .inr hcollides

/-- With fewer dishonest guardians than the quorum, a deposit through the module is the first
one for each of its keys, whatever others deposited since the guardians signed; else two
strings are at hand with the same hash. -/
theorem no_deposit_is_front_run {c : GuardedCall D G} {a : Attestation} {dishonest : Finset Address}
    (h : Reachable (chainSystem D L G) s)
    (hstep : (chainSystem D L G).step s (.guarded (.deposit c a)) = .ok s')
    (hregistry : s.guarded.dsm.nodeOperatorsRegistry = G.registry)
    (hdishonest : dishonest.card < s.guarded.dsm.quorum)
    (hhonest : ∀ g ∈ s.guarded.dsm.members, g ∉ dishonest → Honest D L G s a g) :
    (∃ new, s'.log = s.log ++ new ∧
      s'.guarded.world.deposits = s.guarded.world.deposits ++ new ∧
      ∀ d ∈ new, (∀ d' ∈ s.log, d'.pubkey ≠ d.pubkey) ∧
        d.withdrawalCredentials = toBytes 32 s.guarded.world.lido.withdrawalCredentials) ∨
    ∃ s₁, Before D L G s₁ s ∧
      Collides D.hash {countString D.sha256 s₁.log} {countString D.sha256 s.log} := by
  obtain ⟨hg, _, hlog⟩ := step_guarded.mp hstep
  have hguarded := reachable_guarded h
  have hs := jointSane (GuardedWorld.reachable_world hguarded)
  obtain ⟨⟨dsm, world⟩, hdeposit, heq⟩ := bind_eq_ok.mp hg
  obtain ⟨hroot, _, ⟨_, hquorum⟩, _, _, _, hindex, hverify, hworld, _⟩ :=
    depositBufferedEther_eq_ok.mp hdeposit
  obtain ⟨signers, hcard, hmembers, hsigns⟩ := (GuardedWorld.sane_dsm hguarded).signers hverify
  rw [hregistry, GuardedWorld.getKeysOpIndex, if_pos rfl, Except.ok.injEq] at hindex
  -- more signers than dishonest guardians: one of them is honest
  obtain ⟨g, hg', hgood⟩ : ∃ g ∈ signers, g ∉ dishonest :=
    Finset.exists_mem_notMem_of_card_lt_card (by omega)
  obtain ⟨sig, hsig, hsigned⟩ := hsigns g hg'
  obtain ⟨s₁, hbefore, hvetted⟩ := hhonest g (hmembers hg') hgood sig hsig hsigned
  rcases hvetted.fresh_now hbefore hroot hindex.symm with hfresh | hcollides
  · left
    obtain ⟨_, _, hpool⟩ := bind_eq_ok.mp hworld
    obtain ⟨_, calls, hcalls, hkeys⟩ := deposit_unusedKeys hs hpool
    refine ⟨s.made s'.guarded, hlog, deposits_eq hg, fun d hd ↦ ?_⟩
    have hworld' : s'.guarded.world = world :=
      (congrArg GuardedWorld.world (Except.ok.inj heq)).symm
    rw [made, hworld', hcalls, List.drop_left] at hd
    obtain ⟨hunused, hcredentials⟩ := hkeys d hd
    exact ⟨fun d' hd' ↦ hfresh _ hunused d' hd', hcredentials⟩
  · exact .inr ⟨s₁, hbefore, hcollides⟩

end ChainWorld

namespace Sample

open ChainWorld

/-- One dishonest guardian of three does no harm to a quorum of two. -/
theorem first_deposit_is_not_front_run : ∃ s s',
    Reachable (chainSystem deployment layout guarding) s ∧
    (chainSystem deployment layout guarding).step s
      (.guarded (.deposit (guardedCall 20) (chainAttestation 2))) = .ok s' ∧
    s'.log.length = 1 ∧
    ((∃ new, s'.log = s.log ++ new ∧
      s'.guarded.world.deposits = s.guarded.world.deposits ++ new ∧
      ∀ d ∈ new, (∀ d' ∈ s.log, d'.pubkey ≠ d.pubkey) ∧
        d.withdrawalCredentials = toBytes 32 s.guarded.world.lido.withdrawalCredentials) ∨
      ∃ s₁, Before deployment layout guarding s₁ s ∧ Collides deployment.hash
        {countString deployment.sha256 s₁.log} {countString deployment.sha256 s.log}) := by
  have hrun : reaches (jointSystem deployment layout) start depositRun (fun w ↦
      decide (w.deposits = []) &&
      reaches (chainSystem deployment layout guarding)
        ⟨⟨deployedModule, w⟩, constructor deployment.sha256, []⟩
        (setupModule.map .guarded) fun s ↦
          decide (s.guarded.dsm.nodeOperatorsRegistry = 6 ∧ s.guarded.dsm.quorum = 2 ∧
            s.guarded.dsm.guardians = [11, 12, 13] ∧ s.log = [] ∧
            s.guarded.world.registry.keysOpIndex = 2 ∧ s.depositRoot deployment = 64) &&
          reaches (chainSystem deployment layout guarding) s
            [.guarded (.deposit (guardedCall 20) (chainAttestation 2))] fun s' ↦
              decide (s'.log.length = 1)) = true := by
    decide +kernel
  obtain ⟨s, hs, hq⟩ := chain_of_run hrun
  rw [Bool.and_eq_true] at hq
  obtain ⟨hq, hnext⟩ := hq
  obtain ⟨hregistry, hquorum, _, hlog, hindex, hroot⟩ := of_decide_eq_true hq
  obtain ⟨s', hstep, hlength⟩ := step_of_reaches hnext
  have hminority : ({13} : Finset Address).card < s.guarded.dsm.quorum := by
    rw [hquorum]
    decide
  refine ⟨s, s', hs, hstep, of_decide_eq_true hlength,
    no_deposit_is_front_run hs hstep hregistry hminority ?_⟩
  intro g _ _ _ _ _
  refine ⟨s, ⟨hs, .refl s⟩, hroot.symm, hindex.symm, ?_⟩
  rw [hlog]
  exact fun _ _ d hd ↦ absurd hd List.not_mem_nil

end Sample

end LidoDao
