import LidoDao.LidoOracle
import LidoDao.Library.Ballots
import Mathlib.Tactic.Ring

namespace LidoDao

open Evm Library.Outcome Library.Ballots

namespace ReportUtils

/-- What a member reports: the balance and the number of validators. -/
abbrev Variant := UInt64 × UInt32

/-- A variant as it is stored, with the number of its reports. -/
def pack (x : Variant × ℕ) : ℕ := encode x.1.1 x.1.2 + x.2

variable {c : Variant} {n : ℕ}

theorem encode_eq (c : Variant) :
    encode c.1 c.2 = 2 ^ 16 * (2 ^ 32 * c.1.toNat + c.2.toNat) := by
  have hv := c.2.toNat_lt
  have hlt : c.2.toNat <<< 16 < 2 ^ 48 := by
    rw [Nat.shiftLeft_eq]
    omega
  rw [encode, ← Nat.shiftLeft_add_eq_or_of_lt hlt, Nat.shiftLeft_eq, Nat.shiftLeft_eq]
  ring

theorem pack_eq (c : Variant) (n : ℕ) :
    pack (c, n) = 2 ^ 16 * (2 ^ 32 * c.1.toNat + c.2.toNat) + n := by
  rw [pack, encode_eq]

theorem pack_shiftRight (hn : n < 2 ^ 16) :
    pack (c, n) >>> 16 = 2 ^ 32 * c.1.toNat + c.2.toNat := by
  rw [pack_eq, Nat.shiftRight_eq_div_pow]
  omega

@[simp] theorem decode_pack (hn : n < 2 ^ 16) : decode (pack (c, n)) = c := by
  have hv := c.2.toNat_lt
  have hhigh : pack (c, n) >>> 48 = c.1.toNat := by
    rw [show (48 : ℕ) = 16 + 32 from rfl, Nat.shiftRight_add, pack_shiftRight hn,
      Nat.shiftRight_eq_div_pow]
    omega
  refine Prod.ext ?_ ?_
  · rw [decode, hhigh]
    exact UInt64.ofNat_toNat
  · rw [decode, pack_shiftRight hn]
    apply UInt32.toNat_inj.mp
    rw [Nat.toUInt32_eq, UInt32.toNat_ofNat']
    omega

theorem toNat_getCount_pack (hn : n < 2 ^ 16) : (getCount (pack (c, n))).toNat = n := by
  rw [getCount, pack_eq, Nat.toUInt16_eq, UInt16.toNat_ofNat']
  omega

theorem pack_and_countOutmask (hn : n < 2 ^ 16) :
    pack (c, n) &&& countOutmask = encode c.1 c.2 := by
  have hb := c.1.toNat_lt
  have hv := c.2.toNat_lt
  have hmask : countOutmask = 2 ^ 16 * (2 ^ 96 - 1) + 0 := by decide
  have hlt : 2 ^ 32 * c.1.toNat + c.2.toNat < 2 ^ 96 := by omega
  have hzero : (0 : ℕ) < 2 ^ 16 := by decide
  rw [pack_eq, encode_eq, hmask, ← Nat.add_zero (2 ^ 16 * (2 ^ 32 * c.1.toNat + c.2.toNat))]
  refine Nat.eq_of_testBit_eq fun i ↦ ?_
  rw [Nat.testBit_and, Nat.add_zero, Nat.testBit_two_pow_mul_add _ hn,
    Nat.testBit_two_pow_mul_add _ hzero]
  rw [← Nat.add_zero (2 ^ 16 * (2 ^ 32 * c.1.toNat + c.2.toNat)),
    Nat.testBit_two_pow_mul_add _ hzero]
  split
  · simp
  · rw [Nat.testBit_two_pow_sub_one]
    by_cases hi : i - 16 < 96
    · simp [hi]
    · have hpow : 2 ^ 96 ≤ 2 ^ (i - 16) := Nat.pow_le_pow_right (by decide) (by omega)
      rw [Nat.testBit_lt_two_pow (hlt.trans_le hpow)]
      rfl

theorem encode_inj {c d : Variant} : encode c.1 c.2 = encode d.1 d.2 ↔ c = d := by
  refine ⟨fun h ↦ ?_, fun h ↦ h ▸ rfl⟩
  have hc : decode (pack (c, 0)) = c := decode_pack (by decide)
  have hd : decode (pack (d, 0)) = d := decode_pack (by decide)
  rw [pack, Nat.add_zero] at hc hd
  rw [← hc, ← hd, h]

theorem isDifferent_pack {d : Variant} (hn : n < 2 ^ 16) :
    isDifferent (pack (c, n)) (encode d.1 d.2) = decide (c ≠ d) := by
  rw [isDifferent, pack_and_countOutmask hn, bne, Bool.eq_iff_iff]
  simp [encode_inj]

/-- The counts of these reports fit their field. -/
def Countable (t : List (Variant × ℕ)) : Prop := ∀ x ∈ t, 0 < x.2 ∧ x.2 ≤ 256

variable {t : List (Variant × ℕ)}

theorem Countable.lt (h : Countable t) {x : Variant × ℕ} (hx : x ∈ t) : x.2 < 2 ^ 16 :=
  (h x hx).2.trans_lt (by decide)

theorem matchingVariant_pack (h : Countable t) (c : Variant) :
    OracleWorld.matchingVariant (t.map pack) (encode c.1 c.2) =
      t.findIdx fun x ↦ x.1 = c := by
  induction t with
  | nil => rfl
  | cons x t ih =>
    have hx : x.2 < 2 ^ 16 := h.lt (by simp)
    have ht : Countable t := fun y hy ↦ h y (by simp [hy])
    have hdiff : isDifferent (pack x) (encode c.1 c.2) = decide (x.1 ≠ c) := isDifferent_pack hx
    have hih := ih ht
    rw [OracleWorld.matchingVariant] at hih ⊢
    rw [List.map_cons, List.findIdx_cons, List.findIdx_cons, hdiff, hih]
    by_cases hc : x.1 = c <;> simp [hc]

end ReportUtils

namespace LidoOracle

open ReportUtils

/-- What the loop of `_getQuorumReport` knows of the reports it went through. -/
structure MostFrequent (t : List (Variant × ℕ)) (best : ℕ × ℕ × UInt16) : Prop where
  le : ∀ x ∈ t, x.2 ≤ best.2.2.toNat
  found : t ≠ [] → ∃ x, t[best.1]? = some x ∧ x.2 = best.2.2.toNat ∧
    t.countP (fun y ↦ y.2 = x.2) = best.2.1 + 1
  start : t = [] → best.2.2 = 0

theorem MostFrequent.keep {t : List (Variant × ℕ)} {x : Variant × ℕ} {maxind repeated : ℕ}
    {maxval : UInt16} (h : MostFrequent t (maxind, repeated, maxval)) (hpos : 0 < x.2)
    (hle : x.2 ≤ maxval.toNat) : MostFrequent (t ++ [x])
      (maxind, if x.2 = maxval.toNat then repeated + 1 else repeated, maxval) := by
  have hnonempty : t ≠ [] := by
    intro hnil
    have hzero : maxval = 0 := h.start hnil
    rw [hzero] at hle
    have hle' : x.2 ≤ 0 := hle
    omega
  obtain ⟨y, hy, hyval, hcount⟩ := h.found hnonempty
  have hyval' : y.2 = maxval.toNat := hyval
  refine ⟨?_, fun _ ↦ ⟨y, ?_, hyval, ?_⟩, fun hnil ↦ absurd hnil (by simp)⟩
  · intro z hz
    rcases List.mem_append.mp hz with hz | hz
    · exact h.le z hz
    · rw [List.mem_singleton.mp hz]
      exact hle
  · rw [List.getElem?_append_left (List.getElem?_eq_some_iff.mp hy).1]
    exact hy
  · rw [List.countP_append, hcount]
    by_cases htie : x.2 = maxval.toNat
    · simp [htie, hyval']
    · simp [htie, hyval']

theorem MostFrequent.replace {t : List (Variant × ℕ)} {x : Variant × ℕ} {maxind repeated : ℕ}
    {maxval cur : UInt16} (h : MostFrequent t (maxind, repeated, maxval)) (hcur : cur.toNat = x.2)
    (hlt : maxval.toNat < x.2) : MostFrequent (t ++ [x]) (t.length, 0, cur) := by
  have hbelow : ∀ z ∈ t, z.2 < x.2 := fun z hz ↦ (h.le z hz).trans_lt hlt
  refine ⟨?_, fun _ ↦ ⟨x, ?_, hcur.symm, ?_⟩, fun hnil ↦ absurd hnil (by simp)⟩
  · intro z hz
    rw [hcur]
    rcases List.mem_append.mp hz with hz | hz
    · exact (hbelow z hz).le
    · rw [List.mem_singleton.mp hz]
  · simp
  · have hnone : t.countP (fun y ↦ y.2 = x.2) = 0 := by
      refine List.countP_eq_zero.mpr fun z hz ↦ ?_
      have hz' := hbelow z hz
      simp
      omega
    rw [List.countP_append, hnone]
    simp

theorem MostFrequent.push {t : List (Variant × ℕ)} {x : Variant × ℕ} {maxind repeated : ℕ}
    {maxval cur : UInt16} (h : MostFrequent t (maxind, repeated, maxval))
    (hcur : cur.toNat = x.2) (hpos : 0 < x.2) :
    MostFrequent (t ++ [x]) (if maxval ≤ cur then
      if cur = maxval then (maxind, repeated + 1, maxval) else (t.length, 0, cur)
      else (maxind, repeated, maxval)) := by
  have hle : maxval ≤ cur ↔ maxval.toNat ≤ x.2 := by rw [← hcur]; rfl
  have heq : cur = maxval ↔ x.2 = maxval.toNat := by rw [← hcur, UInt16.toNat_inj]
  by_cases hge : maxval ≤ cur
  · rw [if_pos hge]
    rw [hle] at hge
    by_cases htie : cur = maxval
    · rw [if_pos htie]
      rw [heq] at htie
      have hkeep := h.keep hpos htie.le
      rwa [if_pos htie] at hkeep
    · rw [if_neg htie]
      rw [heq] at htie
      exact h.replace hcur (by omega)
  · rw [if_neg hge]
    rw [hle] at hge
    have hkeep := h.keep hpos (Nat.lt_of_not_le hge).le
    rwa [if_neg (by omega)] at hkeep

theorem mostFrequent_ok {t done : List (Variant × ℕ)} {best : ℕ × ℕ × UInt16}
    (ht : Countable t) (h : MostFrequent done best) :
    MostFrequent (done ++ t) (mostFrequent done.length (t.map pack) best) := by
  induction t generalizing done best with
  | nil => simpa [mostFrequent] using h
  | cons x t ih =>
    obtain ⟨maxind, repeated, maxval⟩ := best
    have hx := ht x (by simp)
    have hcur : (getCount (pack x)).toNat = x.2 := toNat_getCount_pack (ht.lt (by simp))
    have hstep := ih (fun y hy ↦ ht y (by simp [hy])) (h.push hcur hx.1)
    rw [List.append_assoc, List.length_append, List.length_singleton] at hstep
    rw [List.map_cons, mostFrequent]
    split at hstep
    · split at hstep
      · simpa [*] using hstep
      · simpa [*] using hstep
    · simpa [*] using hstep

variable {t : List (Variant × ℕ)}

theorem MostFrequent.leads_iff {maxind repeated : ℕ} {maxval : UInt16} {x : Variant × ℕ}
    (h : MostFrequent t (maxind, repeated, maxval)) (hnodup : t.Nodup)
    (hx : t[maxind]? = some x) : (repeated = 0 ↔ Leads t x) ∧ ∀ y, Leads t y → y = x := by
  have hmem := List.mem_of_getElem? hx
  obtain ⟨x', hx', hval, hcount⟩ := h.found (List.ne_nil_of_mem hmem)
  obtain rfl : x = x' := Option.some.inj (hx.symm.trans hx')
  have hmax : ∀ y ∈ t, y.2 ≤ x.2 := fun y hy ↦ hval ▸ h.le y hy
  have hself : x ∈ t.filter fun y ↦ y.2 = x.2 := List.mem_filter.mpr ⟨hmem, by simp⟩
  rw [List.countP_eq_length_filter] at hcount
  refine ⟨⟨fun hzero ↦ ⟨hmem, fun y hy hne ↦ ?_⟩, fun hlead ↦ ?_⟩, fun y hlead ↦ ?_⟩
  · refine Nat.lt_of_le_of_ne (hmax y hy) fun heq ↦ hne ?_
    have hother : y ∈ t.filter fun y ↦ y.2 = x.2 := List.mem_filter.mpr ⟨hy, by simp [heq]⟩
    have hone : (t.filter fun y ↦ y.2 = x.2).length = 1 := by
      rw [hcount]
      exact congrArg (· + 1) hzero
    obtain ⟨a, ha⟩ := List.length_eq_one_iff.mp hone
    rw [ha, List.mem_singleton] at hself hother
    rw [hself, hother]
  · have hall : ∀ y ∈ t.filter fun y ↦ y.2 = x.2, y = x := by
      intro y hy
      obtain ⟨hy, hval'⟩ := List.mem_filter.mp hy
      by_contra hne
      have hlt := hlead.2 y hy hne
      have heq := of_decide_eq_true hval'
      omega
    have hle : (t.filter fun y ↦ y.2 = x.2).length ≤ 1 := by
      have hcountx := List.nodup_iff_count_le_one.mp (hnodup.filter fun y ↦ y.2 = x.2) x
      rwa [List.count_eq_length.mpr fun y hy ↦ (hall y hy).symm] at hcountx
    have hcount' : (t.filter fun y ↦ y.2 = x.2).length = repeated + 1 := hcount
    omega
  · by_contra hne
    have hlt := hlead.2 x hmem fun h ↦ hne h.symm
    have hge := hmax y hlead.1
    omega

variable {o : LidoOracle}

theorem _getQuorumReport_ok (ht : Countable t) (hnodup : t.Nodup)
    (ho : o.currentReportVariants = t.map pack) (q : ℕ) :
    (∃ x, Leads t x ∧ q ≤ x.2 ∧ o._getQuorumReport q = .ok (true, pack x)) ∨
    ∃ report, o._getQuorumReport q = .ok (false, report) ∧ ∀ x, Leads t x → x.2 < q := by
  rw [_getQuorumReport, ho]
  rcases t with _ | ⟨x, _ | ⟨y, t⟩⟩
  · exact .inr ⟨0, rfl, fun x hx ↦ nomatch hx.1⟩
  · have hval : (getCount (pack x)).toNat = x.2 := toNat_getCount_pack (ht.lt (by simp))
    by_cases hq : q ≤ x.2
    · refine .inl ⟨x, ⟨by simp, ?_⟩, hq, ?_⟩
      · intro y hy hne
        exact absurd (List.mem_singleton.mp hy) hne
      · simp [hval, hq]
    · refine .inr ⟨pack x, ?_, fun y hy ↦ ?_⟩
      · simp [hval, hq]
      · rw [List.mem_singleton.mp hy.1]
        omega
  · obtain ⟨⟨maxind, repeated, maxval⟩, hbest⟩ :
        ∃ best, mostFrequent 0 ((x :: y :: t).map pack) (0, 0, 0) = best := ⟨_, rfl⟩
    have hfound : MostFrequent (x :: y :: t) (maxind, repeated, maxval) := by
      have hstart : MostFrequent [] (0, 0, 0) :=
        ⟨fun _ h ↦ (List.not_mem_nil h).elim, fun h ↦ absurd rfl h, fun _ ↦ rfl⟩
      have h := mostFrequent_ok ht hstart
      rwa [List.length_nil, hbest] at h
    obtain ⟨z, hz, hval, _⟩ := hfound.found (by simp)
    obtain ⟨hlead, hunique⟩ := hfound.leads_iff hnodup hz
    have hval' : z.2 = maxval.toNat := hval
    have hreport : ((x :: y :: t).map pack)[maxind]? = some (pack z) := by
      rw [List.getElem?_map, hz]
      rfl
    by_cases hzero : repeated = 0 ∧ q ≤ z.2
    · refine .inl ⟨z, hlead.mp hzero.1, hzero.2, ?_⟩
      simp only [List.map_cons] at hbest hreport ⊢
      simp only [hbest, hreport, hzero.1, ← hval', hzero.2]
      simp
    · refine .inr ⟨pack z, ?_, fun u hu ↦ ?_⟩
      · simp only [List.map_cons] at hbest hreport ⊢
        simp only [hbest, hreport, ← hval']
        rw [and_comm] at hzero
        simp [hzero]
      · obtain rfl := hunique u hu
        have := hlead.mpr hu
        omega

end LidoOracle

end LidoDao
