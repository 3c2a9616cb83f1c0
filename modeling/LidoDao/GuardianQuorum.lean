import Mathlib.Data.Finset.Sort
import LidoDao.GuardedDeposits

namespace LidoDao

open Evm Library.Outcome Library.Transition

/-- Addresses in the order of their numbers. -/
instance : LinearOrder Address where
  le a b := a.id ≤ b.id
  lt a b := a.id < b.id
  le_refl a := le_refl a.id
  le_trans a b c := le_trans (a := a.id)
  lt_iff_le_not_ge a b := lt_iff_le_not_ge (a := a.id)
  le_antisymm a b hab hba := by
    cases a
    cases b
    exact congrArg Address.mk (le_antisymm hab hba)
  le_total a b := le_total a.id b.id
  toDecidableLE a b := inferInstanceAs (Decidable (a.id ≤ b.id))
  toDecidableEq := inferInstance

namespace DepositSecurityModule

variable {P : Precompiles} {m : DepositSecurityModule} {hash : BitVec 256}

/-- The signature is one of this signer over this hash. -/
def Signs (P : Precompiles) (hash : BitVec 256) (sig : Signature) (signer : Address) : Prop :=
  ECDSA.recoverShort P hash sig.r sig.vs = .ok signer

theorem verifySignatures_eq_ok {sigs : List Signature} {prev : Address} :
    m.verifySignatures P hash sigs prev = .ok () ↔ ∃ signers,
      List.Forall₂ (Signs P hash) sigs signers ∧ (prev :: signers).Pairwise (· < ·) ∧
      ∀ g ∈ signers, m._isGuardian g = true := by
  induction sigs generalizing prev with
  | nil => simp [verifySignatures]
  | cons sig sigs ih =>
    simp only [verifySignatures, bind_eq_ok, require_eq_ok, exists_const, ih]
    constructor
    · intro h
      obtain ⟨signer, hsigner, hguardian, hlt, signers, hsigns, hsorted, hall⟩ := h
      refine ⟨signer :: signers, .cons hsigner hsigns, ?_, List.forall_mem_cons.mpr ⟨hguardian, hall⟩⟩
      refine List.pairwise_cons.mpr ⟨?_, hsorted⟩
      intro g hg
      rcases List.mem_cons.mp hg with rfl | hg
      · exact hlt
      · exact lt_trans (show prev < signer from hlt) (List.rel_of_pairwise_cons hsorted hg)
    · intro h
      obtain ⟨_, hsigns, hsorted, hall⟩ := h
      cases hsigns with
      | @cons _ signer _ signers hsigner hsigns =>
        obtain ⟨hguardian, hall⟩ := List.forall_mem_cons.mp hall
        obtain ⟨hprev, hsorted⟩ := List.pairwise_cons.mp hsorted
        exact ⟨signer, hsigner, hguardian, hprev signer List.mem_cons_self, signers, hsigns,
          hsorted, hall⟩

theorem Sane.signers (hs : m.Sane) {sigs : List Signature}
    (h : m.verifySignatures P hash sigs 0 = .ok ()) :
    ∃ signers : Finset Address, signers.card = sigs.length ∧ signers ⊆ m.members ∧
      ∀ g ∈ signers, ∃ sig ∈ sigs, Signs P hash sig g := by
  obtain ⟨signers, hsigns, hsorted, hguardians⟩ := verifySignatures_eq_ok.mp h
  have hnodup : signers.Nodup := (List.pairwise_cons.mp hsorted).2.imp fun hlt ↦ hlt.ne
  refine ⟨signers.toFinset, ?_, ?_, ?_⟩
  · rw [List.toFinset_card_of_nodup hnodup, hsigns.length_eq]
  · intro g hg
    exact hs.isGuardian.mp (hguardians g (List.mem_toFinset.mp hg))
  · intro g hg
    obtain ⟨i, hi, rfl⟩ := List.mem_iff_getElem.mp (List.mem_toFinset.mp hg)
    have hi' : i < sigs.length := by rwa [hsigns.length_eq]
    exact ⟨sigs[i], List.getElem_mem hi', (List.forall₂_iff_get.mp hsigns).2 i hi' hi⟩

theorem Sane.verify_sorted (hs : m.Sane) {signers : Finset Address} {sign : Address → Signature}
    (hmembers : signers ⊆ m.members) (hsign : ∀ g ∈ signers, Signs P hash (sign g) g) :
    m.verifySignatures P hash (signers.sort.map sign) 0 = .ok () := by
  refine verifySignatures_eq_ok.mpr ⟨signers.sort, ?_, ?_, ?_⟩
  · rw [List.forall₂_map_left_iff]
    exact List.forall₂_same.mpr fun g hg ↦ hsign g ((Finset.mem_sort _).mp hg)
  · refine List.pairwise_cons.mpr ⟨fun g hg ↦ ?_, signers.sortedLT_sort.pairwise⟩
    have hzero := hs.nonzero g (mem_members.mp (hmembers ((Finset.mem_sort _).mp hg)))
    have hle : (0 : Address) ≤ g := show (0 : Fin (2 ^ 160)) ≤ g.id from Fin.zero_le _
    exact lt_of_le_of_ne hle hzero.symm
  · intro g hg
    exact hs.isGuardian.mpr (hmembers ((Finset.mem_sort _).mp hg))

end DepositSecurityModule

variable {D : Deployment} {L : SigningKeyLayout} {G : Guarding}

open DepositSecurityModule

/-- A deposit gets through only with a quorum of guardians who signed just this, and what
they signed still holds; where it holds, the signatures of any such guardians will do. -/
theorem guardian_quorum {s : GuardedWorld} (h : Reachable (guardedSystem D L G) s) {W : Type}
    (getKeysOpIndex : Address → Except Revert ℕ) (depositUpTo : ℕ → Except Revert W)
    (c : ModuleCall) (a : Attestation) :
    (∀ m' w, s.dsm.depositBufferedEther G.precompiles getKeysOpIndex depositUpTo c a =
        .ok (m', w) →
      0 < s.dsm.quorum ∧
      (∃ signers : Finset Address, s.dsm.quorum ≤ signers.card ∧ signers ⊆ s.dsm.members ∧
        ∀ g ∈ signers, ∃ sig ∈ a.sortedGuardianSignatures,
          Signs G.precompiles (s.dsm.attestMessageHash G.precompiles a.depositRoot a.keysOpIndex
            a.blockNumber a.blockHash) sig g) ∧
      a.depositRoot = c.depositRoot ∧
      getKeysOpIndex s.dsm.nodeOperatorsRegistry = .ok a.keysOpIndex ∧
      c.blockhash a.blockNumber = a.blockHash ∧ s.dsm.paused = false) ∧
    (∀ w (signers : Finset Address) (sign : Address → Signature),
      0 < s.dsm.quorum → s.dsm.paused = false → a.depositRoot = c.depositRoot →
      s.dsm.lastDepositBlock + s.dsm.minDepositBlockDistance ≤ c.blockNumber →
      a.blockHash ≠ 0 → c.blockhash a.blockNumber = a.blockHash →
      getKeysOpIndex s.dsm.nodeOperatorsRegistry = .ok a.keysOpIndex →
      depositUpTo s.dsm.maxDepositsPerBlock = .ok w →
      signers ⊆ s.dsm.members → s.dsm.quorum ≤ signers.card →
      (∀ g ∈ signers, Signs G.precompiles (s.dsm.attestMessageHash G.precompiles a.depositRoot
        a.keysOpIndex a.blockNumber a.blockHash) (sign g) g) →
      a.sortedGuardianSignatures = signers.sort.map sign →
      ∃ m', s.dsm.depositBufferedEther G.precompiles getKeysOpIndex depositUpTo c a =
        .ok (m', w)) := by
  have hs := GuardedWorld.sane_dsm h
  refine ⟨fun m' w hdeposit ↦ ?_, ?_⟩
  · obtain ⟨hroot, hpaused, ⟨hquorum, hlength⟩, _, _, ⟨_, hhash⟩, hindex, hverify, _⟩ :=
      depositBufferedEther_eq_ok.mp hdeposit
    obtain ⟨signers, hcard, hmembers, hsigns⟩ := hs.signers hverify
    exact ⟨hquorum, ⟨signers, hcard ▸ hlength, hmembers, hsigns⟩, hroot, hindex, hhash, hpaused⟩
  · intro w signers sign hquorum hpaused hroot hdistance hnonzero hhash hindex hw hmembers hcard
      hsign hsorted
    have hlength : s.dsm.quorum ≤ a.sortedGuardianSignatures.length := by
      rw [hsorted, List.length_map, Finset.length_sort]
      exact hcard
    have hverify := hs.verify_sorted hmembers hsign
    rw [← hsorted] at hverify
    exact ⟨_, depositBufferedEther_eq_ok.mpr ⟨hroot, hpaused, ⟨hquorum, hlength⟩, by omega,
      by omega, ⟨hnonzero, hhash⟩, hindex, hverify, hw, rfl⟩⟩

namespace Sample

def signatureOf (g : Address) : Signature where
  r := BitVec.ofNat 256 g.id
  vs := 1

/-- Two of three guardians are a quorum of two. -/
theorem two_of_three_guardians : ∃ s, Reachable (guardedSystem deployment layout guarding) s ∧
    s.dsm.guardians = [11, 12, 13] ∧ s.dsm.quorum = 2 ∧
    ∃ m', s.dsm.depositBufferedEther guarding.precompiles (fun _ ↦ .ok 2)
      (fun maxDeposits ↦ .ok maxDeposits) (moduleCall 20) (attestation 2) = .ok (m', 1) := by
  have hrun : reaches (jointSystem deployment layout) start depositRun (fun w ↦
      reaches (guardedSystem deployment layout guarding) ⟨deployedModule, w⟩ setupModule fun s ↦
        decide (s.dsm.guardians = [11, 12, 13] ∧ s.dsm.quorum = 2 ∧ s.dsm.paused = false ∧
          s.dsm.lastDepositBlock = 0 ∧ s.dsm.minDepositBlockDistance = 5 ∧
          s.dsm.maxDepositsPerBlock = 1)) = true := by
    decide +kernel
  obtain ⟨s, hs, hq⟩ := guarded_of_run hrun
  obtain ⟨hguardians, hquorum, hpaused, hlast, hdistance, hmax⟩ := of_decide_eq_true hq
  have hmembers : ({11, 12} : Finset Address) ⊆ s.dsm.members := by
    rw [members, hguardians]
    decide
  have hset : ({11, 12} : Finset Address) = [11, 12].toFinset := by decide
  have hsort : ({11, 12} : Finset Address).sort = [11, 12] := by
    rw [hset]
    exact (List.toFinset_sort (· ≤ ·) (by decide)).mpr (by decide)
  refine ⟨s, hs, hguardians, hquorum, (guardian_quorum hs (fun _ ↦ .ok 2)
    (fun maxDeposits ↦ .ok maxDeposits) (moduleCall 20) (attestation 2)).2 1 {11, 12} signatureOf
      (by omega) hpaused rfl (by rw [hlast, hdistance]; decide) (by decide) (by decide) rfl
      (by rw [hmax]) hmembers (by rw [hquorum]; decide) ?_ (by rw [hsort]; decide)⟩
  intro g hg
  rcases Finset.mem_insert.mp hg with rfl | hg
  · rfl
  · rw [Finset.mem_singleton.mp hg]
    rfl

end Sample

end LidoDao
