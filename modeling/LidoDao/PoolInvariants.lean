import LidoDao.Steps

namespace LidoDao

open Evm Library.Outcome Library.Ledger Library.Transition EtherBooks

variable {R ρ : Type} {D : Deployment} {I : INodeOperatorsRegistry R ρ}

namespace Lido

variable {s s' : Lido}

@[simp] theorem payAll_books (source : Address) (ps : List (Address × ℕ)) :
    (s.payAll source ps).books = s.books := rfl

@[simp] theorem mint_books (recipient : Address) (m : ℕ) : (s.mint recipient m).books = s.books :=
  rfl

theorem report_posts {v b : ℕ} (hmore : v ≤ s.depositedValidators)
    (hless : s.beaconValidators ≤ v) (x : ℕ) :
    Posts depositSize s.books (.reported v b x) ((s.report v b).collect x).books :=
  .reported s.books v b x hmore hless

theorem launch_posts {count amount : ℕ} (hamount : amount = count * depositSize)
    (h : amount ≤ s.bufferedEther) :
    Posts depositSize s.books (.deposited count) (s.launch count amount).books := by
  subst hamount
  exact .deposited s.books count h

end Lido

namespace StETH.Balanced

variable {s : Lido}

theorem mint (h : s.Balanced) (recipient : Address) (m : ℕ) : (s.mint recipient m).Balanced := by
  have hs := sum_update_add s.shares recipient (s.shares recipient + m)
  unfold Balanced at h ⊢
  simp only [Lido.mint]
  omega

theorem payAll (h : s.Balanced) {source : Address} {ps : List (Address × ℕ)}
    (hle : total ps ≤ s.shares source) : (s.payAll source ps).Balanced :=
  (sum_payOut hle).trans h

theorem feeSplit (h : s.Balanced) {registry : R} {m : ℕ} {operators : List (Address × ℕ)}
    (hs : Lido.FeeSplit I registry s m operators) :
    ((s.mint D.lido m).payAll D.lido (s.feePayments m operators)).Balanced := by
  apply (h.mint D.lido m).payAll
  rw [hs.total_payments]
  simp [Lido.mint]

end StETH.Balanced

/-- What every operation keeps true of the pool, whatever registry it is with. -/
structure Lido.Sane (s : Lido) : Prop where
  sound : Sound s.books
  balanced : s.Balanced
  totalShares : s.totalShares < wordLimit
  valid : s.toSettings.Valid

theorem Settings.Valid.initial {oracle treasury insuranceFund : Address} {balance : ℕ} {s : Lido}
    (h : (Lido.blank balance).initializeLido oracle treasury insuranceFund = .ok s) :
    s.toSettings.Valid := by
  obtain ⟨⟨ho, ht, hi⟩, rfl⟩ := Lido._setProtocolContracts_ok h
  exact ⟨Nat.zero_le _, .inl ⟨rfl, rfl, rfl⟩, Nat.zero_le _, ho, ht, hi⟩

theorem Lido.Sane.initial {oracle treasury insuranceFund : Address} {balance : ℕ} {s : Lido}
    (h : (Lido.blank balance).initializeLido oracle treasury insuranceFund = .ok s) : s.Sane := by
  have hvalid := Settings.Valid.initial h
  obtain ⟨_, rfl⟩ := Lido._setProtocolContracts_ok h
  refine ⟨⟨Nat.zero_le _, Nat.zero_le _⟩, ?_, ?_, hvalid⟩
  · simp [StETH.Balanced, Lido.blank]
  · simp [Lido.blank, wordLimit]

namespace Change

variable {w w' : World R} {e : Event D ρ}

/-- The pool refines its books: an accepted event makes its entry there. -/
theorem posts (h : Change I w e w') :
    ∃ n x, Posts Lido.depositSize w.lido.books (e.entry n x) w'.lido.books := by
  cases h with
  | token he _ | control he | settings he _ _ | vaults he =>
    refine ⟨0, 0, ?_⟩
    rw [he]
    exact .idle w.lido.books
  | credentials _ | registry _ => exact ⟨0, 0, .idle w.lido.books⟩
  | paidIn he h =>
    refine ⟨0, 0, ?_⟩
    rw [he]
    obtain ⟨_, _, _, _, _, rfl⟩ := Lido._submit_ok h
    exact .paidIn w.lido.books _
  | rewardsIn h =>
    obtain ⟨_, _, rfl⟩ := Lido.receiveELRewards_eq_ok.mp h
    exact ⟨0, 0, .rewardsIn w.lido.books _⟩
  | deposited _ he h =>
    rcases Lido._depositBufferedEther_ok h with ⟨_, rfl⟩ |
      ⟨_, count, amount, _, _, _, _, hamount, hle, rfl⟩
    · refine ⟨0, 0, ?_⟩
      rw [he]
      have hzero : 0 * Lido.depositSize ≤ w'.lido.bufferedEther := by simp
      have hposts := Posts.deposited w'.lido.books 0 hzero
      simp only [Nat.zero_mul, Nat.sub_zero, Nat.add_zero] at hposts
      exact hposts
    · refine ⟨count, 0, ?_⟩
      rw [he]
      exact Lido.launch_posts hamount hle
  | reported v b h =>
    obtain ⟨hmore, hless, x, _, s, _, rfl, hbooks⟩ := Lido.handleOracleReport_books h
    refine ⟨0, x, ?_⟩
    dsimp only
    rw [hbooks]
    exact Lido.report_posts hmore hless x
  | recovered h => exact ⟨0, 0, .recovered w.lido.books⟩
  | forceEther amount => exact ⟨0, 0, .credited w.lido.books amount⟩

theorem balanced (h : Change I w e w') (hs : w.lido.Balanced) : w'.lido.Balanced := by
  cases h with
  | token _ ht => exact ht.balanced hs
  | control _ | settings _ _ _ | vaults _ | credentials _ | registry _ | recovered _
  | forceEther _ => exact hs
  | paidIn _ h =>
    obtain ⟨_, _, t, _, ht, rfl⟩ := Lido._submit_ok h
    exact hs.mintShares ht
  | rewardsIn h =>
    obtain ⟨_, _, rfl⟩ := Lido.receiveELRewards_eq_ok.mp h
    exact hs
  | deposited _ _ h =>
    have htoken := (Lido._depositBufferedEther_frame h).toStETH
    exact hs.of_eq (congrArg StETH.shares htoken) (congrArg StETH.totalShares htoken)
  | reported v b h =>
    obtain ⟨_, _, x, _, _, ⟨_, rfl⟩ | ⟨_, s', hfee, rfl⟩⟩ := Lido.handleOracleReport_ok h
    · exact hs
    · obtain ⟨m, operators, _, hsplit, rfl⟩ := Lido.distributeFee_ok hfee
      have hs' : ((w.lido.report v b).collect x).Balanced := hs
      exact hs'.feeSplit hsplit

theorem totalShares_lt (h : Change I w e w') (hs : w.lido.totalShares < wordLimit) :
    w'.lido.totalShares < wordLimit := by
  cases h with
  | token _ ht => exact ht.totalShares.trans_lt hs
  | control _ | settings _ _ _ | vaults _ | credentials _ | registry _ | recovered _
  | forceEther _ => exact hs
  | paidIn _ h =>
    obtain ⟨_, _, t, _, ht, rfl⟩ := Lido._submit_ok h
    obtain ⟨_, _, hlt, _, rfl⟩ := StETH._mintShares_eq_ok.mp ht
    exact hlt
  | rewardsIn h =>
    obtain ⟨_, _, rfl⟩ := Lido.receiveELRewards_eq_ok.mp h
    exact hs
  | deposited _ _ h =>
    have htotal := congrArg StETH.totalShares (Lido._depositBufferedEther_frame h).toStETH
    exact htotal.trans_lt hs
  | reported v b h =>
    obtain ⟨_, _, x, _, _, ⟨_, rfl⟩ | ⟨_, s', hfee, rfl⟩⟩ := Lido.handleOracleReport_ok h
    · exact hs
    · obtain ⟨m, operators, _, hsplit, rfl⟩ := Lido.distributeFee_ok hfee
      exact hsplit.bounded

theorem valid (h : Change I w e w') (hs : w.lido.toSettings.Valid) :
    w'.lido.toSettings.Valid := by
  cases h with
  | settings _ hst _ => exact hst hs
  | credentials _ => exact { hs with }
  | token _ _ | control _ | vaults _ | registry _ | recovered _ | forceEther _ => exact hs
  | paidIn _ h =>
    obtain ⟨_, _, t, _, ht, rfl⟩ := Lido._submit_ok h
    exact hs
  | rewardsIn h =>
    obtain ⟨_, _, rfl⟩ := Lido.receiveELRewards_eq_ok.mp h
    exact hs
  | deposited _ _ h =>
    rw [(Lido._depositBufferedEther_frame h).settings]
    exact hs
  | reported v b h =>
    rw [(Lido.handleOracleReport_frame h).settings]
    exact hs

theorem sane (h : Change I w e w') (hs : w.lido.Sane) : w'.lido.Sane := by
  obtain ⟨_, _, hposts⟩ := h.posts
  exact ⟨hs.sound.posts hposts, h.balanced hs.balanced, h.totalShares_lt hs.totalShares,
    h.valid hs.valid⟩

end Change

theorem World.sane {w : World R} (h : Reachable (World.machine D I) w) : w.lido.Sane := by
  refine h.invariant (P := fun w ↦ w.lido.Sane) ?_ ?_
  · intro w hw
    obtain ⟨⟨_, _, _, _, hinit⟩, _⟩ := hw
    exact Lido.Sane.initial hinit
  · intro w e w' _ hs hstep
    exact (World.step_change hstep).sane hs

end LidoDao
