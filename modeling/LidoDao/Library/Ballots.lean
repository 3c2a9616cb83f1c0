import Mathlib.Algebra.BigOperators.Group.List.Basic
import Mathlib.Algebra.GroupWithZero.Nat
import Mathlib.Data.Finset.Card
import Mathlib.Data.List.Induction
import Mathlib.Data.List.Nodup
import Mathlib.Data.List.Perm.Basic
import Mathlib.Data.Nat.Notation
import Mathlib.Tactic.Common

namespace LidoDao.Library.Ballots

variable {β : Type} [DecidableEq β] {b c : β} {n : ℕ} {l l₁ l₂ : List β}

def support (b : β) (l : List β) : ℕ := l.count b

theorem support_concat (b c : β) (l : List β) :
    support b (l ++ [c]) = support b l + if c = b then 1 else 0 := by
  rw [support, List.count_append, List.count_singleton]
  by_cases hc : c = b <;> simp [support, hc]

theorem support_le_length (b : β) (l : List β) : support b l ≤ l.length := List.count_le_length

theorem support_pos : 0 < support b l ↔ b ∈ l := List.count_pos_iff

theorem support_map {α : Type} (f : α → β) (b : β) (l : List α) :
    support b (l.map f) = (l.filter fun a ↦ f a = b).length := by
  rw [support, List.count, List.countP_map, List.countP_eq_length_filter]
  refine congrArg _ (List.filter_congr fun a _ ↦ ?_)
  exact beq_eq_decide _ _

theorem support_perm (h : l₁.Perm l₂) (b : β) : support b l₁ = support b l₂ := h.count_eq b

section Tally

def vote (b : β) : List (β × ℕ) → List (β × ℕ)
  | [] => [(b, 1)]
  | (c, n) :: t => if c = b then (c, n + 1) :: t else (c, n) :: vote b t

/-- The choices that ballots were cast for, in the order of their first ballot,
with their numbers. -/
def tally (l : List β) : List (β × ℕ) := l.foldl (fun t b ↦ vote b t) []

variable {t : List (β × ℕ)}

@[simp] theorem tally_nil : tally ([] : List β) = [] := rfl

theorem tally_concat (l : List β) (b : β) : tally (l ++ [b]) = vote b (tally l) := by
  simp [tally]

theorem map_fst_vote :
    (vote b t).map Prod.fst = if b ∈ t.map Prod.fst then t.map Prod.fst
      else t.map Prod.fst ++ [b] := by
  induction t with
  | nil => simp [vote]
  | cons x t ih =>
    obtain ⟨c, n⟩ := x
    by_cases hc : c = b
    · subst hc
      simp [vote]
    · have hne : b ≠ c := Ne.symm hc
      rw [vote, if_neg hc, List.map_cons, ih]
      by_cases hb : b ∈ t.map Prod.fst
      · simp [hb, hne]
      · simp [hb, hne]

theorem nodup_vote (h : (t.map Prod.fst).Nodup) : ((vote b t).map Prod.fst).Nodup := by
  rw [map_fst_vote]
  split
  · exact h
  · rename_i hb
    exact List.nodup_append'.mpr ⟨h, List.nodup_singleton b, by simpa using hb⟩

theorem sum_vote : ((vote b t).map Prod.snd).sum = (t.map Prod.snd).sum + 1 := by
  induction t with
  | nil => rfl
  | cons x t ih =>
    obtain ⟨c, n⟩ := x
    by_cases hc : c = b
    · simp only [vote, if_pos hc, List.map_cons, List.sum_cons]
      omega
    · simp only [vote, if_neg hc, List.map_cons, List.sum_cons, ih]
      omega

/-- How often a choice was voted for, as far as the tally says. -/
def votes (t : List (β × ℕ)) (b : β) : ℕ := ((t.filter fun x ↦ x.1 = b).map Prod.snd).sum

theorem votes_vote : votes (vote b t) c = votes t c + if c = b then 1 else 0 := by
  induction t with
  | nil =>
    by_cases hc : b = c
    · simp [vote, votes, hc]
    · simp [vote, votes, hc, Ne.symm hc]
  | cons x t ih =>
    obtain ⟨d, n⟩ := x
    simp only [votes] at ih ⊢
    by_cases hd : d = b
    · subst hd
      by_cases hc : d = c
      · simp [vote, hc]
        omega
      · simp [vote, hc, Ne.symm hc]
    · rw [vote, if_neg hd]
      by_cases hc : d = c
      · simp [hc, ih]
        omega
      · simp [hc, ih]

theorem votes_tally : votes (tally l) b = support b l := by
  induction l using List.reverseRecOn with
  | nil => rfl
  | append_singleton l a ih =>
    rw [tally_concat, votes_vote, ih, support_concat]
    simp only [eq_comm]

theorem votes_of_mem (h : (t.map Prod.fst).Nodup) (hb : (b, n) ∈ t) : votes t b = n := by
  induction t with
  | nil => cases hb
  | cons x t ih =>
    rw [List.map_cons, List.nodup_cons] at h
    obtain ⟨hx, ht⟩ := h
    have hnone (hx : b ∉ t.map Prod.fst) : t.filter (fun x ↦ x.1 = b) = [] := by
      refine List.filter_eq_nil_iff.mpr fun y hy hyb ↦ hx ?_
      exact List.mem_map.mpr ⟨y, hy, of_decide_eq_true hyb⟩
    rcases List.mem_cons.mp hb with rfl | hb
    · simp [votes, hnone hx]
    · have hne : x.1 ≠ b := by
        rintro rfl
        exact hx (List.mem_map.mpr ⟨_, hb, rfl⟩)
      have hvotes := ih ht hb
      simp only [votes] at hvotes ⊢
      simpa [hne] using hvotes

theorem nodup_tally (l : List β) : ((tally l).map Prod.fst).Nodup := by
  induction l using List.reverseRecOn with
  | nil => exact List.nodup_nil
  | append_singleton l a ih =>
    rw [tally_concat]
    exact nodup_vote ih

theorem sum_tally (l : List β) : ((tally l).map Prod.snd).sum = l.length := by
  induction l using List.reverseRecOn with
  | nil => rfl
  | append_singleton l a ih =>
    rw [tally_concat, sum_vote, ih, List.length_append, List.length_singleton]

theorem mem_map_fst_tally : b ∈ (tally l).map Prod.fst ↔ b ∈ l := by
  induction l using List.reverseRecOn with
  | nil => simp
  | append_singleton l a ih =>
    rw [tally_concat, map_fst_vote, List.mem_append, List.mem_singleton, ← ih]
    split
    · rename_i ha
      exact ⟨.inl, fun h ↦ h.elim id fun h ↦ h ▸ ha⟩
    · rw [List.mem_append, List.mem_singleton]

theorem mem_tally : (b, n) ∈ tally l ↔ b ∈ l ∧ support b l = n := by
  constructor
  · intro h
    refine ⟨mem_map_fst_tally.mp (List.mem_map.mpr ⟨_, h, rfl⟩), ?_⟩
    rw [← votes_tally, votes_of_mem (nodup_tally l) h]
  · intro h
    obtain ⟨hb, rfl⟩ := h
    obtain ⟨⟨c, n⟩, hmem, rfl⟩ := List.mem_map.mp (mem_map_fst_tally.mpr hb)
    rwa [← votes_tally, votes_of_mem (nodup_tally l) hmem]

theorem tally_perm (h : l₁.Perm l₂) : (tally l₁).Perm (tally l₂) := by
  apply (List.perm_ext_iff_of_nodup ((nodup_tally l₁).of_map _) ((nodup_tally l₂).of_map _)).mpr
  intro y
  obtain ⟨b, n⟩ := y
  rw [mem_tally, mem_tally, h.mem_iff, support_perm h]

theorem bounds_of_mem_tally {x : β × ℕ} (h : x ∈ tally l) : 0 < x.2 ∧ x.2 ≤ l.length := by
  obtain ⟨hmem, hcount⟩ := mem_tally.mp h
  rw [← hcount]
  exact ⟨support_pos.mpr hmem, support_le_length _ _⟩

theorem vote_eq (b : β) (t : List (β × ℕ)) :
    vote b t = match t[t.findIdx fun x ↦ x.1 = b]? with
      | some x => t.set (t.findIdx fun x ↦ x.1 = b) (x.1, x.2 + 1)
      | none => t ++ [(b, 1)] := by
  induction t with
  | nil => rfl
  | cons x t ih =>
    obtain ⟨c, n⟩ := x
    by_cases hc : c = b
    · simp [vote, List.findIdx_cons, hc]
    · rw [vote, if_neg hc, ih]
      simp only [List.findIdx_cons, hc, decide_false, cond_false, List.getElem?_cons_succ]
      cases t[t.findIdx fun x ↦ x.1 = b]? with
      | none => rfl
      | some y => rfl

/-- One entry of a tally is ahead of all others. -/
def Leads (t : List (β × ℕ)) (x : β × ℕ) : Prop := x ∈ t ∧ ∀ y ∈ t, y ≠ x → y.2 < x.2

/-- One more ballot makes nobody a leader but the choice it is for. -/
theorem leads_concat {x : β × ℕ} (h : Leads (tally (l ++ [b])) x) (hne : x.1 ≠ b) :
    Leads (tally l) x := by
  have hsupport (c : β) (hc : c ≠ b) : support c (l ++ [b]) = support c l := by
    rw [support_concat, if_neg (Ne.symm hc), Nat.add_zero]
  obtain ⟨hx, hlead⟩ := h
  obtain ⟨hmem, hcount⟩ := mem_tally.mp hx
  rw [hsupport _ hne] at hcount
  have hmem' : x.1 ∈ l := (List.mem_append.mp hmem).resolve_right fun h ↦
    hne (List.mem_singleton.mp h)
  refine ⟨mem_tally.mpr ⟨hmem', hcount⟩, ?_⟩
  intro y hy hyne
  obtain ⟨c, n⟩ := y
  obtain ⟨hc, hn⟩ := mem_tally.mp hy
  have hlt := hlead (c, support c (l ++ [b])) (mem_tally.mpr ⟨List.mem_append_left _ hc, rfl⟩)
  by_cases hcb : c = b
  · rw [support_concat, if_pos hcb.symm, hn] at hlt
    have hlt' := hlt fun h ↦ hne (by rw [← h]; exact hcb)
    dsimp only at hlt' ⊢
    omega
  · rw [hsupport c hcb, hn] at hlt
    exact hlt hyne

omit [DecidableEq β] in
theorem exists_most_frequent (h : t ≠ []) : ∃ x ∈ t, ∀ y ∈ t, y.2 ≤ x.2 := by
  induction t with
  | nil => exact absurd rfl h
  | cons a t ih =>
    rcases t with _ | ⟨b, t⟩
    · exact ⟨a, by simp, by simp⟩
    · obtain ⟨x, hx, hmax⟩ := ih (by simp)
      rcases Nat.le_total x.2 a.2 with hle | hle
      · exact ⟨a, by simp, List.forall_mem_cons.mpr
          ⟨Nat.le_refl _, fun y hy ↦ Nat.le_trans (hmax y hy) hle⟩⟩
      · exact ⟨x, by simp [hx], List.forall_mem_cons.mpr ⟨hle, hmax⟩⟩

omit [DecidableEq β] in
theorem exists_tied {q : ℕ} {x : β × ℕ} (h : ∀ y, Leads t y → y.2 < q) (hx : x ∈ t)
    (hq : q ≤ x.2) : ∃ y ∈ t, ∃ z ∈ t, y ≠ z ∧ y.2 = z.2 ∧ ∀ u ∈ t, u.2 ≤ y.2 := by
  obtain ⟨y, hy, hmax⟩ := exists_most_frequent (List.ne_nil_of_mem hx)
  have hle := hmax x hx
  have hnot : ¬Leads t y := fun hlead ↦ by
    have := h y hlead
    omega
  simp only [Leads, not_and, not_forall] at hnot
  obtain ⟨z, hz, hne, hge⟩ := hnot hy
  have hzy := hmax z hz
  exact ⟨y, hy, z, hz, Ne.symm hne, by omega, hmax⟩

end Tally

section Race

/-- The choice that first gets `q` ballots, when some were counted before. -/
def winner (q : ℕ) : List β → List β → Option β
  | _, [] => none
  | seen, b :: rest => if q ≤ support b seen + 1 then some b else winner q (seen ++ [b]) rest

variable {q : ℕ} {seen : List β}

theorem le_support_of_winner (h : winner q seen l = some b) : q ≤ support b (seen ++ l) := by
  induction l generalizing seen with
  | nil => cases h
  | cons c l ih =>
    rw [winner] at h
    split at h
    · rename_i hle
      cases h
      rw [support] at hle ⊢
      rw [List.count_append, List.count_cons_self]
      omega
    · have hle := ih h
      rwa [List.append_assoc] at hle

theorem support_lt_of_winner (hseen : ∀ b, support b seen < q) (h : winner q seen l = none)
    (b : β) : support b (seen ++ l) < q := by
  induction l generalizing seen with
  | nil => simpa using hseen b
  | cons c l ih =>
    rw [winner] at h
    split at h
    · cases h
    · rename_i hlt
      have hstep : support b ((seen ++ [c]) ++ l) < q := ih (fun d ↦ ?_) h
      · rwa [List.append_assoc] at hstep
      · have hd := hseen d
        rw [support_concat]
        split
        · rename_i hcd
          rw [← hcd]
          omega
        · exact hd

theorem support_add_support_le (hne : b ≠ c) (l : List β) :
    support b l + support c l ≤ l.length := by
  induction l using List.reverseRecOn with
  | nil => exact Nat.zero_le _
  | append_singleton l a ih =>
    rw [support_concat, support_concat, List.length_append, List.length_singleton]
    by_cases hb : a = b
    · have hc : a ≠ c := fun h ↦ hne (hb.symm.trans h)
      rw [if_pos hb, if_neg hc]
      omega
    · rw [if_neg hb]
      split <;> omega

theorem winner_perm (h : l₁.Perm l₂) (hq : 0 < q) (hmajority : l₁.length < 2 * q) :
    winner q [] l₁ = winner q [] l₂ := by
  have hnone : ∀ b, support b ([] : List β) < q := fun _ ↦ hq
  cases h₁ : winner q [] l₁ with
  | none =>
    cases h₂ : winner q [] l₂ with
    | none => rfl
    | some b =>
      have hle : q ≤ support b l₂ := le_support_of_winner h₂
      have hlt : support b l₁ < q := support_lt_of_winner hnone h₁ b
      rw [support_perm h] at hlt
      omega
  | some b =>
    have hb : q ≤ support b l₁ := le_support_of_winner h₁
    cases h₂ : winner q [] l₂ with
    | none =>
      have hlt : support b l₂ < q := support_lt_of_winner hnone h₂ b
      rw [support_perm h] at hb
      omega
    | some c =>
      have hc : q ≤ support c l₂ := le_support_of_winner h₂
      rw [← support_perm h] at hc
      by_cases hbc : b = c
      · rw [hbc]
      · have hsum := support_add_support_le hbc l₁
        omega

end Race

section Voters

/-! Ballots with the voters who cast them. -/

variable {α : Type} [DecidableEq α] {ballots : List (α × β)} {A : Finset α}

theorem support_le_card (hnodup : (ballots.map Prod.fst).Nodup)
    (h : ∀ x ∈ ballots, x.2 = c → x.1 ∈ A) : support c (ballots.map Prod.snd) ≤ A.card := by
  have hvoters : ((ballots.filter fun x ↦ x.2 = c).map Prod.fst).Nodup :=
    hnodup.sublist (List.filter_sublist.map Prod.fst)
  rw [support_map, ← List.length_map (f := Prod.fst), ← List.toFinset_card_of_nodup hvoters]
  refine Finset.card_le_card fun a ha ↦ ?_
  obtain ⟨x, hx, rfl⟩ := List.mem_map.mp (List.mem_toFinset.mp ha)
  obtain ⟨hmem, hc⟩ := List.mem_filter.mp hx
  exact h x hmem (of_decide_eq_true hc)

theorem support_lt_card {a : α} (hnodup : (ballots.map Prod.fst).Nodup)
    (ha : a ∉ ballots.map Prod.fst) (haA : a ∈ A) (h : ∀ x ∈ ballots, x.2 = c → x.1 ∈ A) :
    support c (ballots.map Prod.snd) < A.card := by
  have hle : support c (ballots.map Prod.snd) ≤ (A.erase a).card := by
    refine support_le_card hnodup fun x hx hc ↦ Finset.mem_erase.mpr ⟨?_, h x hx hc⟩
    rintro rfl
    exact ha (List.mem_map_of_mem hx)
  exact hle.trans_lt (Finset.card_erase_lt_of_mem haA)

theorem card_le_support (h : ∀ a ∈ A, (a, c) ∈ ballots) :
    A.card ≤ support c (ballots.map Prod.snd) := by
  rw [support_map, ← List.length_map (f := Prod.fst)]
  refine (Finset.card_le_card fun a ha ↦ ?_).trans (List.toFinset_card_le _)
  have hcast : (a, c) ∈ ballots.filter fun x ↦ x.2 = c :=
    List.mem_filter.mpr ⟨h a ha, decide_eq_true rfl⟩
  exact List.mem_toFinset.mpr (List.mem_map_of_mem hcast)

end Voters

end LidoDao.Library.Ballots
