import LidoDao.OracleQuorum

namespace LidoDao

open Evm Library.Outcome Library.Ballots Library.Transition ReportUtils LidoOracle

namespace ReportUtils

variable {c : Variant} {n : ℕ}

theorem pack_lt (hn : n < 2 ^ 16) : pack (c, n) < wordLimit := by
  have hword : 2 ^ 112 < wordLimit := by decide +kernel
  have hbalance := c.1.toNat_lt
  have hvalidators := c.2.toNat_lt
  rw [pack_eq]
  omega

theorem decodeWithCount_pack (hn : n < 2 ^ 16) :
    decodeWithCount (pack (c, n)) = (c.1, c.2, getCount (pack (c, n))) := by
  have hdecode : decode (pack (c, n)) = c := decode_pack hn
  calc decodeWithCount (pack (c, n))
      = ((decode (pack (c, n))).1, (decode (pack (c, n))).2, getCount (pack (c, n))) := rfl
    _ = (c.1, c.2, getCount (pack (c, n))) := by rw [hdecode]

theorem increments_encode (hn : n < 2 ^ 16) :
    (fun value ↦ (value + 1) % wordLimit)^[n] (encode c.1 c.2) = pack (c, n) := by
  induction n with
  | zero => rfl
  | succ n ih =>
    rw [Function.iterate_succ_apply', ih (by omega)]
    exact Nat.mod_eq_of_lt (pack_lt (c := c) hn)

end ReportUtils

variable {X : Type} {S : OracleSurroundings X} {w : OracleWorld X}

theorem stored_variant (h : Reachable (OracleWorld.machine S) w) {variant : ℕ}
    (hv : variant ∈ w.oracle.currentReportVariants) :
    ∃ (c : Variant) (k : ℕ), variant = pack (c, k) ∧ 1 ≤ k ∧ k ≤ 256 := by
  obtain ⟨reports, hreports⟩ : ∃ reports, Reachable (oracleSystem S) (w, reports) :=
    h.exists_history
  have hsane := oracleSane hreports
  rw [hsane.variants_eq] at hv
  obtain ⟨⟨c, k⟩, hx, rfl⟩ := List.mem_map.mp hv
  have hcount := hsane.countable _ hx
  exact ⟨c, k, rfl, hcount⟩

/-- A count added to a packed report leaves the other fields alone, and no run of the oracle
counts higher than its field reaches. -/
theorem packed_reports_are_faithful (S : OracleSurroundings X) :
    (∀ (balance balance' : UInt64) (validators validators' : UInt32) (k : UInt16),
      (fun value ↦ (value + 1) % wordLimit)^[k.toNat] (encode balance validators) =
        encode balance validators + k.toNat ∧
      decodeWithCount (encode balance validators + k.toNat) = (balance, validators, k) ∧
      decode (encode balance validators + k.toNat) = (balance, validators) ∧
      getCount (encode balance validators + k.toNat) = k ∧
      (isDifferent (encode balance validators + k.toNat) (encode balance' validators') = true ↔
        (balance, validators) ≠ (balance', validators'))) ∧
    ∀ w, Reachable (OracleWorld.machine S) w → ∀ variant ∈ w.oracle.currentReportVariants,
      ∃ (balance : UInt64) (validators : UInt32) (k : ℕ),
        variant = encode balance validators + k ∧ 1 ≤ k ∧ k ≤ 256 ∧
          decodeWithCount (variant + 1) = (balance, validators, UInt16.ofNat (k + 1)) := by
  constructor
  · intro balance balance' validators validators' k
    have hpack : encode balance validators + k.toNat = pack ((balance, validators), k.toNat) := rfl
    have hcount : getCount (pack ((balance, validators), k.toNat)) = k :=
      UInt16.toNat_inj.mp (toNat_getCount_pack k.toNat_lt)
    rw [hpack]
    refine ⟨increments_encode (c := (balance, validators)) k.toNat_lt, ?_,
      decode_pack k.toNat_lt, hcount, ?_⟩
    · rw [decodeWithCount_pack k.toNat_lt, hcount]
    · rw [isDifferent_pack (d := (balance', validators')) k.toNat_lt, decide_eq_true_iff]
  · intro w h variant hv
    obtain ⟨⟨balance, validators⟩, k, rfl, hone, hmany⟩ := stored_variant h hv
    have hlt : k + 1 < 2 ^ 16 := by omega
    have hnext : pack ((balance, validators), k) + 1 = pack ((balance, validators), k + 1) := rfl
    have hcount : getCount (pack ((balance, validators), k + 1)) = UInt16.ofNat (k + 1) := by
      rw [← UInt16.toNat_inj, toNat_getCount_pack hlt, UInt16.toNat_ofNat', Nat.mod_eq_of_lt hlt]
    refine ⟨balance, validators, k, rfl, hone, hmany, ?_⟩
    rw [hnext, decodeWithCount_pack hlt, hcount]

/-- Two members have reported different balances. -/
theorem two_variants_are_packed : ∃ w : OracleWorld (World NodeOperatorsRegistry),
    Reachable (OracleWorld.machine Sample.surroundings) w ∧
      w.oracle.currentReportVariants.length = 2 ∧
      decodeWithCount (encode 18446744073709551615 4294967295 + 65535) =
        (18446744073709551615, 4294967295, 65535) ∧
      ∀ variant ∈ w.oracle.currentReportVariants,
        ∃ (balance : UInt64) (validators : UInt32) (k : ℕ),
          variant = encode balance validators + k ∧ 1 ≤ k ∧ k ≤ 256 ∧
            decodeWithCount (variant + 1) = (balance, validators, UInt16.ofNat (k + 1)) := by
  have hrun : reaches (OracleWorld.machine Sample.surroundings) Sample.oracleStart
      Sample.quorumRun (fun w ↦ decide (w.oracle.currentReportVariants.length = 2)) = true := by
    decide +kernel
  obtain ⟨w, h, hp⟩ := (Reachable.initial Sample.oracleStart_initial).of_reaches hrun
  obtain ⟨hfields, hvariants⟩ := packed_reports_are_faithful Sample.surroundings
  obtain ⟨_, hdecode, _⟩ := hfields 18446744073709551615 0 4294967295 0 65535
  exact ⟨w, h, of_decide_eq_true hp, hdecode, hvariants w h⟩

end LidoDao
