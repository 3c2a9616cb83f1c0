import LidoDao.ReportingSystem

namespace LidoDao

open Evm Library.Outcome Library.Ledger Library.Transition SelfOwnedStETHBurner

variable {R ρ : Type} {D : Deployment} {I : INodeOperatorsRegistry R ρ}

section Burn

variable {H : HolderContract D} {c : BurnerCall} {w w' : BurnWorld R}

/-- Pool and burner after a run that burns what is due. -/
def SelfOwnedStETHBurner.burnDue (H : HolderContract D) (w : BurnWorld R) : BurnWorld R :=
  let due := min (quota w) w.burner.requested
  { pool := { w.pool with lido := { w.pool.lido with
      totalShares := w.pool.lido.totalShares - due
      shares := Function.update w.pool.lido.shares H.address
        (w.pool.lido.shares H.address - due) } }
    burner := w.burner.book (quota w) }

theorem SelfOwnedStETHBurner.burnDue_of_none (hnone : w.burner.requested = 0) :
    burnDue H w = w := by
  have hnothing : w.burner.coverDue (quota w) = 0 ∧ w.burner.nonCoverDue (quota w) = 0 := by
    have hdue := w.burner.coverDue_add_nonCoverDue (quota w)
    rw [hnone, Nat.min_zero] at hdue
    exact Nat.add_eq_zero_iff.mp hdue
  have hbook : w.burner.book (quota w) = w.burner := by
    rw [book, hnothing.1, hnothing.2]
    rfl
  simp only [burnDue, hnone, hbook, Nat.min_zero, Nat.sub_zero, Function.update_eq_self]

theorem SelfOwnedStETHBurner.processLidoOracleReport_burnDue
    (h : processLidoOracleReport I H c w = .ok w') : w' = burnDue H w := by
  rcases processLidoOracleReport_ok h with ⟨hnone, rfl⟩ | hburn
  · exact (burnDue_of_none hnone).symm
  · obtain ⟨_, hpool, rfl⟩ := callLido_eq_ok.mp hburn
    rw [World.step, World.burnShares_eq_ok] at hpool
    obtain ⟨_, _, ht, rfl⟩ := hpool
    obtain ⟨_, _, _, rfl⟩ := StETH._burnShares_ok ht
    rfl

/-- What holds of pool and burner at all times. -/
structure Held (I : INodeOperatorsRegistry R ρ) (H : HolderContract D) (w : BurnWorld R) :
    Prop where
  pool : Reachable (World.machine D I) w.pool
  covered : Covered H w

theorem Held.step {e : BurnEvent H ρ} (h : Held I H w) (he : e.BurnsNothing)
    (hstep : (BurnWorld.machine I H).step w e = .ok w') : Held I H w' :=
  ⟨BurnWorld.reachable_pool h.pool hstep, h.covered.step he hstep⟩

theorem Held.execute {calls : List (BurnEvent H ρ)} (h : Held I H w)
    (hcalls : ∀ e ∈ calls, e.BurnsNothing)
    (hrun : execute (BurnWorld.machine I H) w calls = .ok w') : Held I H w' := by
  have hruns : Runs (BurnWorld.machine I H) (fun _ e ↦ e.BurnsNothing) w w' :=
    .of_execute hrun fun e he _ ↦ hcalls e he
  exact hruns.invariant (fun _ _ _ he hheld hstep ↦ hheld.step he hstep) h

theorem Held.processLidoOracleReport_eq (h : Held I H w) (hactive : w.pool.lido.activeFlag = true)
    (hfits : Fits w) (hroles : ∀ n, c.canPerform .burnRole [H.address.id, n] = true)
    (hreporter : checkReporter c w.pool.lido.oracle = .ok ()) :
    processLidoOracleReport I H c w = .ok (burnDue H w) := by
  have hsane := World.sane h.pool
  have hmay : MayBurn H c w := ⟨⟨hactive, hsane.sound, hfits.pooled, hsane.balanced,
    hsane.totalShares, hfits.tokens⟩, hroles⟩
  obtain ⟨w', hw'⟩ := hmay.processLidoOracleReport_isOk (I := I) h.covered hfits hreporter
  rw [hw', processLidoOracleReport_burnDue hw']

end Burn

/-- The other callbacks do not use the burn role on the burner. -/
def ReportContext.BurnsNothing {N : ReportingSites D} (k : ReportContext N R ρ) : Prop :=
  ∀ a x post pre elapsed calls, k.reacts a x post pre elapsed = .ok calls →
    ∀ e ∈ calls, e.BurnsNothing

namespace ReportingSites

variable {N : ReportingSites D} {k : ReportContext N R ρ} {x x' : BurnWorld R}

theorem callback_held {beaconReportReceiver msgSender a : Address} {post pre elapsed : ℕ}
    (hk : k.BurnsNothing) (hx : Held I N.burner x)
    (h : (N.callback I k beaconReportReceiver msgSender).processLidoOracleReport
      a x post pre elapsed = .ok x') : Held I N.burner x' := by
  by_cases ha : a = N.burner.address
  · have hprocess := (if_pos ha).symm.trans h
    exact hx.step (e := .burner _ .processLidoOracleReport) trivial hprocess
  · obtain ⟨calls, hcalls, hrun⟩ := bind_eq_ok.mp ((if_neg ha).symm.trans h)
    exact hx.execute (hk a x post pre elapsed calls hcalls) hrun

/-- Those who may call the burner back: the oracle, and the receiver it names. -/
def Reporter (N : ReportingSites D) (beaconReportReceiver msgSender : Address) : Prop :=
  msgSender = N.oracle ∨ msgSender = beaconReportReceiver

theorem Reporter.check {beaconReportReceiver msgSender : Address}
    (h : N.Reporter beaconReportReceiver msgSender) :
    checkReporter (N.burnerCall k beaconReportReceiver msgSender) N.oracle = .ok () := by
  apply checkReporter_isOk
  rcases h with rfl | rfl
  · exact .inl rfl
  · exact .inr (if_pos rfl)

/-- The pool was neither stopped nor given another oracle, and the numbers are words. -/
structure Undisturbed (x y : BurnWorld R) : Prop where
  active : y.pool.lido.activeFlag = x.pool.lido.activeFlag
  oracle : y.pool.lido.oracle = x.pool.lido.oracle
  fits : Fits y

/-- A callback, if the burner's books its due shares whatever happens. -/
def dueCallback (I : INodeOperatorsRegistry R ρ) (N : ReportingSites D) (k : ReportContext N R ρ)
    (post pre elapsed : ℕ) (x : BurnWorld R) (a : Address) : Except Revert (BurnWorld R) :=
  if a = N.burner.address then .ok (burnDue N.burner x)
  else N.otherCallback I k a x post pre elapsed

/-- Wherever the burner stands in a row of callbacks, it does not break the row. -/
theorem callbacks_eq {beaconReportReceiver msgSender : Address} {l : List Address}
    {post pre elapsed : ℕ} {x₀ : BurnWorld R}
    (hreporter : N.Reporter beaconReportReceiver msgSender)
    (hroles : ∀ n, k.burnerRoles .burnRole [N.burner.address.id, n] = true) (hk : k.BurnsNothing)
    (hactive₀ : x₀.pool.lido.activeFlag = true) (horacle₀ : x₀.pool.lido.oracle = N.oracle)
    (hx : Held I N.burner x)
    (hturns : ∀ before y, before ++ [N.burner.address] <+: l →
      before.foldlM (N.dueCallback I k post pre elapsed) x = .ok y → Undisturbed x₀ y) :
    l.foldlM (fun x a ↦ (N.callback I k beaconReportReceiver msgSender).processLidoOracleReport
        a x post pre elapsed) x =
      l.foldlM (N.dueCallback I k post pre elapsed) x := by
  induction l generalizing x with
  | nil => rfl
  | cons a l ih =>
    rw [List.foldlM_cons, List.foldlM_cons]
    have hsame : (N.callback I k beaconReportReceiver msgSender).processLidoOracleReport
        a x post pre elapsed = N.dueCallback I k post pre elapsed x a := by
      by_cases ha : a = N.burner.address
      · subst ha
        obtain ⟨hactive, horacle, hfits⟩ := hturns [] x ⟨l, rfl⟩ rfl
        rw [hactive₀] at hactive
        rw [horacle₀] at horacle
        have hcheck : checkReporter (N.burnerCall k beaconReportReceiver msgSender)
            x.pool.lido.oracle = .ok () := by
          rw [horacle]
          exact hreporter.check
        have hburn := hx.processLidoOracleReport_eq
          (c := N.burnerCall k beaconReportReceiver msgSender) hactive hfits hroles hcheck
        exact (if_pos rfl).trans (hburn.trans (if_pos rfl).symm)
      · exact (if_neg ha).trans (if_neg ha).symm
    rw [hsame]
    cases hfirst : N.dueCallback I k post pre elapsed x a with
    | error e => rfl
    | ok x' =>
      refine ih (callback_held hk hx (hsame.trans hfirst)) fun before y hbefore hy ↦ ?_
      refine hturns (a :: before) y ((List.prefix_cons_inj a).mpr hbefore) ?_
      rw [List.foldlM_cons, hfirst]
      exact hy

theorem processLidoOracleReport_eq {x : BehindOracle R} (horacle : x.receiver.oracle = N.oracle)
    (beaconReportReceiver : Address) (post pre elapsed : ℕ) :
    ∃ msgSender, N.Reporter beaconReportReceiver msgSender ∧
      (N.surroundings I k).processLidoOracleReport beaconReportReceiver x post pre elapsed = (do
        let burn ← (if beaconReportReceiver = N.receiver then x.receiver.callbacks
          else [beaconReportReceiver]).foldlM (fun x a ↦
            (N.callback I k beaconReportReceiver msgSender).processLidoOracleReport
              a x post pre elapsed) x.burn
        pure { x with burn }) := by
  by_cases hreceiver : beaconReportReceiver = N.receiver
  · refine ⟨N.receiver, .inr hreceiver.symm, ?_⟩
    have honly : x.receiver.onlyOracle N.oracle = .ok () := require_of horacle.symm
    simp only [surroundings, if_pos hreceiver,
      CompositePostRebaseBeaconReceiver.processLidoOracleReport_eq, honly, ok_bind]
  · refine ⟨N.oracle, .inl rfl, ?_⟩
    simp only [surroundings, if_neg hreceiver, List.foldlM_cons, List.foldlM_nil, bind_pure]

end ReportingSites

theorem Lido.handleOracleReport_settings {w w' : World R} {msgSender : Address} {v b : ℕ}
    (h : Lido.handleOracleReport D I msgSender v b w = .ok w') :
    w'.lido.activeFlag = w.lido.activeFlag ∧ w'.lido.oracle = w.lido.oracle := by
  have hframe := Lido.handleOracleReport_frame h
  exact ⟨hframe.activeFlag, congrArg Settings.oracle hframe.settings⟩

namespace ReportingWorld

variable {N : ReportingSites D} {k : ReportContext N R ρ} {w w' u : OracleWorld (BehindOracle R)}

/-- What holds behind the oracle at all times. -/
structure Sane (I : INodeOperatorsRegistry R ρ) (N : ReportingSites D) (x : BehindOracle R) :
    Prop where
  held : Held I N.burner x.burn
  oracle : x.receiver.oracle = N.oracle

def callbacksOf (N : ReportingSites D) (w : OracleWorld (BehindOracle R)) : List Address :=
  if w.oracle.beaconReportReceiver = 0 then []
  else if w.oracle.beaconReportReceiver = N.receiver then w.outside.receiver.callbacks
  else [w.oracle.beaconReportReceiver]

/-- The callbacks of a completed report, if the burner never fails. -/
def dueRow (I : INodeOperatorsRegistry R ρ) (N : ReportingSites D) (k : ReportContext N R ρ)
    (u : OracleWorld (BehindOracle R)) (row : List Address) : Except Revert (BurnWorld R) :=
  row.foldlM (N.dueCallback I k u.oracle.postCompletedTotalPooledEther
    u.oracle.preCompletedTotalPooledEther u.oracle.timeElapsed) u.outside.burn

/-- Whenever it is the burner's turn, the callbacks before it left the pool running for its
oracle, and the numbers fit. -/
def UndisturbedTurns (I : INodeOperatorsRegistry R ρ) (N : ReportingSites D)
    (k : ReportContext N R ρ) (u : OracleWorld (BehindOracle R)) : Prop :=
  ∀ before x, before ++ [N.burner.address] <+: callbacksOf N u →
    dueRow I N k u before = .ok x → ReportingSites.Undisturbed u.outside.burn x

theorem notify_eq (hpushes : u.pushes ≠ w.pushes) (hs : Sane I N u.outside)
    (hactive : u.outside.burn.pool.lido.activeFlag = true)
    (horacle : u.outside.burn.pool.lido.oracle = N.oracle)
    (hroles : ∀ n, k.burnerRoles .burnRole [N.burner.address.id, n] = true) (hk : k.BurnsNothing)
    (hturns : UndisturbedTurns I N k u) :
    w.notify (N.surroundings I k) u = (do
      let burn ← dueRow I N k u (callbacksOf N u)
      pure { u with outside := { u.outside with burn } }) := by
  rw [OracleWorld.notify]
  by_cases hnone : u.oracle.beaconReportReceiver = 0
  · rw [if_pos (.inr hnone), callbacksOf, if_pos hnone]
    rfl
  · have hrow : callbacksOf N u = if u.oracle.beaconReportReceiver = N.receiver then
        u.outside.receiver.callbacks else [u.oracle.beaconReportReceiver] := if_neg hnone
    obtain ⟨msgSender, hreporter, heq⟩ := N.processLidoOracleReport_eq (I := I) (k := k) hs.oracle
      u.oracle.beaconReportReceiver u.oracle.postCompletedTotalPooledEther
      u.oracle.preCompletedTotalPooledEther u.oracle.timeElapsed
    rw [if_neg (not_or.mpr ⟨hpushes, hnone⟩), heq, ← hrow,
      ReportingSites.callbacks_eq hreporter hroles hk hactive horacle hs.held hturns, bind_assoc]
    rfl

theorem silent_sane {c : OracleCall} {m : OracleMessage} (hs : Sane I N w.outside)
    (h : w.handle (N.surroundings I k).silent c m = .ok u) :
    Sane I N u.outside ∧ (u.pushes = w.pushes ∨
      u.outside.burn.pool.lido.activeFlag = true ∧
      u.outside.burn.pool.lido.oracle = N.oracle) := by
  cases OracleWorld.handle_ends h with
  | idle hpushes houtside =>
    rw [houtside]
    exact ⟨hs, .inl hpushes⟩
  | pushed hpush =>
    obtain ⟨p, _, hreport⟩ := OracleWorld._push_silent_ok hpush
    obtain ⟨pool, hpool, houtside⟩ := bind_eq_ok.mp hreport
    obtain ⟨hactive, horacle⟩ := Lido.handleOracleReport_sender hpool
    obtain ⟨hactive', horacle'⟩ := Lido.handleOracleReport_settings hpool
    let c : LidoCall D := {
      sender := N.oracle, sender_ne_lido := N.oracle_ne_lido, blockNumber := 0
      canPerform := fun _ _ ↦ false, depositAccepts := fun _ _ ↦ false
      recoveryVault := N.oracle, recoveryVault_ne_lido := N.oracle_ne_lido
      recoveryAccepts := false, tokenTransfers := false }
    have hstep : World.step D I w.outside.burn.pool
        (.lido c (.handleOracleReport p.beaconValidators p.beaconBalanceEth1)) = .ok pool := hpool
    have hcovered : Covered N.burner { w.outside.burn with pool } := by
      refine hs.held.covered.pool ?_ ?_ hstep
      · intro c' m' heq
        cases heq
        exact N.oracle_ne_burner
      · intro c' n heq
        cases heq
    have hbehind : u.outside = { w.outside with burn := { w.outside.burn with pool } } :=
      (Except.ok.inj houtside).symm
    have hreachable : Reachable (World.machine D I) pool :=
      hs.held.pool.step (i := .lido c (.handleOracleReport p.beaconValidators p.beaconBalanceEth1))
        hstep
    rw [hbehind]
    refine ⟨⟨⟨hreachable, hcovered⟩, hs.oracle⟩, .inr ⟨?_, ?_⟩⟩
    · exact hactive'.trans hactive
    · exact horacle'.trans horacle.symm

theorem notify_sane (hs : Sane I N u.outside) (hk : k.BurnsNothing)
    (h : w.notify (N.surroundings I k) u = .ok w') : Sane I N w'.outside := by
  rw [OracleWorld.notify] at h
  split at h
  · cases h
    exact hs
  · obtain ⟨msgSender, _, heq⟩ := N.processLidoOracleReport_eq (I := I) (k := k) hs.oracle
      u.oracle.beaconReportReceiver u.oracle.postCompletedTotalPooledEther
      u.oracle.preCompletedTotalPooledEther u.oracle.timeElapsed
    rw [heq] at h
    obtain ⟨x, hx, h⟩ := bind_eq_ok.mp h
    obtain ⟨burn, hburn, hx⟩ := bind_eq_ok.mp hx
    cases hx
    cases h
    have hheld := foldlM_invariant (P := Held I N.burner)
      (fun _ _ _ hx hcallback ↦ ReportingSites.callback_held hk hx hcallback) hs.held hburn
    exact ⟨hheld, hs.oracle⟩

end ReportingWorld

/-- The burn role is not used on the burner by others. -/
def ReportingEvent.BurnsNothing {N : ReportingSites D} : ReportingEvent N R ρ → Prop
  | .oracle k _ _ => k.BurnsNothing
  | .pool e he => (BurnEvent.pool e fun c m heq ↦ (he c m heq).1 : BurnEvent N.burner ρ).BurnsNothing
  | _ => True

namespace ReportingWorld

variable {N : ReportingSites D} {k : ReportContext N R ρ} {w w' u : OracleWorld (BehindOracle R)}

theorem Sane.initial (h : (machine I N).initial w) : Sane I N w.outside := by
  obtain ⟨_, hburn, k, receiver, voting, hreceiver⟩ := h
  refine ⟨⟨hburn.2.1, .initial hburn⟩, ?_⟩
  obtain ⟨_, _, hreceiver⟩ := bind_eq_ok.mp hreceiver
  obtain ⟨_, _, hreceiver⟩ := bind_eq_ok.mp hreceiver
  rw [← Except.ok.inj hreceiver]

theorem Sane.onBurn {f : BurnWorld R → Except Revert (BurnWorld R)} (hs : Sane I N w.outside)
    (hf : ∀ burn, f w.outside.burn = .ok burn → Held I N.burner burn)
    (h : onBurn w f = .ok w') : Sane I N w'.outside := by
  obtain ⟨burn, hburn, h⟩ := bind_eq_ok.mp h
  cases h
  exact ⟨hf burn hburn, hs.oracle⟩

theorem Sane.onArray {f : OrderedCallbacksArray → Except Revert OrderedCallbacksArray}
    (hs : Sane I N w.outside) (h : onArray w f = .ok w') : Sane I N w'.outside := by
  obtain ⟨array, _, h⟩ := bind_eq_ok.mp h
  cases h
  exact ⟨hs.held, hs.oracle⟩

theorem Sane.step {e : ReportingEvent N R ρ} (hs : Sane I N w.outside) (he : e.BurnsNothing)
    (h : (machine I N).step w e = .ok w') : Sane I N w'.outside := by
  change ReportingWorld.step I N w e = .ok w' at h
  cases e with
  | oracle k c m =>
    obtain ⟨u, hu, hnotify⟩ := bind_eq_ok.mp ((OracleWorld.handle_notify c m).symm.trans h)
    exact notify_sane (silent_sane hs hu).1 he hnotify
  | pool e hsender =>
    rw [ReportingWorld.step] at h
    refine hs.onBurn ?_ h
    intro burn hburn
    exact hs.held.step (e := .pool e fun c m heq ↦ (hsender c m heq).1) he hburn
  | burner k msgSender m =>
    rw [ReportingWorld.step] at h
    refine hs.onBurn ?_ h
    intro burn hburn
    exact hs.held.step (e := .burner _ m) trivial hburn
  | addCallback _ _ | insertCallback _ _ _ | removeCallback _ _ =>
    rw [ReportingWorld.step] at h
    exact hs.onArray h

/-- The burner never stands in the way of a report: it goes through where it would without a
receiver and the other callbacks let it through, as if the burner's turns could not fail. -/
theorem burner_blocks_no_report {w₀ : OracleWorld (BehindOracle R)}
    (h₀ : (machine I N).initial w₀)
    (hrun : Runs (machine I N) (fun _ e ↦ ReportingEvent.BurnsNothing e) w₀ w) :
    w.outside.burn.burner.requested ≤ w.outside.burn.pool.lido.shares N.burner.address ∧
    ∀ k c m w', (∀ n, k.burnerRoles .burnRole [N.burner.address.id, n] = true) →
      ReportContext.BurnsNothing k →
      (∀ u, w.handle (N.surroundings I k).silent c m = .ok u → u.pushes ≠ w.pushes →
        UndisturbedTurns I N k u) →
      ((machine I N).step w (.oracle k c m) = .ok w' ↔
        ∃ u, w.handle (N.surroundings I k).silent c m = .ok u ∧
          (u.pushes = w.pushes ∧ w' = u ∨
            u.pushes ≠ w.pushes ∧ ∃ burn, dueRow I N k u (callbacksOf N u) = .ok burn ∧
              w' = { u with outside := { u.outside with burn } })) := by
  have hs : Sane I N w.outside :=
    hrun.invariant (P := fun w ↦ Sane I N w.outside) (fun _ _ _ he hs hstep ↦ hs.step he hstep)
      (.initial h₀)
  refine ⟨hs.held.covered.covered, ?_⟩
  intro k c m w' hroles hk hturns
  have hstep : (machine I N).step w (.oracle k c m) =
      w.handle (N.surroundings I k).silent c m >>= w.notify (N.surroundings I k) :=
    OracleWorld.handle_notify c m
  rw [hstep, bind_eq_ok]
  refine exists_congr fun u ↦ and_congr_right fun hu ↦ ?_
  by_cases hpushes : u.pushes = w.pushes
  · rw [OracleWorld.notify_of_idle hpushes]
    simp [hpushes, eq_comm]
  · obtain ⟨hs', hreport⟩ := silent_sane hs hu
    obtain ⟨hactive, horacle⟩ := hreport.resolve_left hpushes
    rw [notify_eq hpushes hs' hactive horacle hroles hk (hturns u hu hpushes), bind_eq_ok]
    simp only [hpushes, ne_eq, not_false_eq_true, true_and, false_and, false_or, pure_eq,
      Except.ok.injEq]
    exact exists_congr fun burn ↦ and_congr_right fun _ ↦ eq_comm

end ReportingWorld

namespace Sample

theorem two_ne_lido : (2 : Address) ≠ deployment.lido := by decide

theorem two_ne_burner : (2 : Address) ≠ burner.address := by decide

theorem thirty_ne_zero : (30 : Address) ≠ 0 := by decide

theorem thirty_ne_burner : (30 : Address) ≠ burner.address := by decide

def reportingSites : ReportingSites deployment where
  oracle := 2
  oracle_ne_lido := two_ne_lido
  receiver := 30
  receiver_ne_zero := thirty_ne_zero
  burner := burner
  oracle_ne_burner := two_ne_burner
  receiver_ne_burner := thirty_ne_burner
  beaconReportReceiverId := 1

def reportContext :
    ReportContext reportingSites NodeOperatorsRegistry (RegistryCall deployment) where
  blockNumber := 10
  burnerRoles _ _ := true
  reacts callback _ _ _ _ := if callback = 40 then .ok [aroundBurner (.submit 0 20)] else .ok []
  supportsReceiver _ := true
  otherReceiver _ := .ok 0

theorem reportContext_burnsNothing : reportContext.BurnsNothing := by
  intro callback x post pre elapsed calls hcalls e he
  rw [reportContext] at hcalls
  dsimp only at hcalls
  split at hcalls
  · cases hcalls
    rw [List.mem_singleton.mp he]
    trivial
  · cases hcalls
    cases he

def reportingMachine :=
  ReportingWorld.machine (registryContract deployment layout) reportingSites

def reportingStart : OracleWorld (BehindOracle NodeOperatorsRegistry) where
  oracle := oracleStart.oracle
  outside := {
    burn := burnStart
    receiver := { voting := 5, requiredInterface := 1, callbacks := [], oracle := 2 } }
  pushes := []

theorem reportingStart_initial : reportingMachine.initial reportingStart :=
  ⟨⟨oracleStart_initial.1, rfl⟩, burnStart_initial, reportContext, 0, 5, rfl⟩

theorem admin_is_other (m : LidoMessage) : ∀ c m', admin m = .lido c m' →
    c.sender ≠ reportingSites.burner.address ∧ c.sender ≠ reportingSites.oracle := by
  intro c m' h
  cases h
  decide

abbrev ReportingStep :=
  ReportingEvent reportingSites NodeOperatorsRegistry (RegistryCall deployment)

def aroundReporting (m : LidoMessage) : ReportingStep :=
  .pool (admin m) (admin_is_other m)

def callOracle (sender : Address) (second : UInt64) (m : OracleMessage) : ReportingStep :=
  .oracle reportContext { sender, blockNumber := 10, canPerform := fun _ _ ↦ true
                          timestamp := beaconSpec.genesisTime + second } m

def reportingRun : List ReportingStep := [
  aroundReporting .resume,
  aroundReporting (.submit 0 100),
  aroundReporting (.approve 21 60),
  .burner reportContext 5 (.requestBurnMyStETHForCover 60),
  callOracle 1 0 (.addOracleMember 11),
  callOracle 1 0 (.setBeaconReportReceiver 30),
  .addCallback { sender := 5, supportsInterface := fun _ _ ↦ true } 40,
  .addCallback { sender := 5, supportsInterface := fun _ _ ↦ true } 21]

def reportCall : OracleCall where
  sender := 11
  blockNumber := 10
  canPerform _ _ := true
  timestamp := beaconSpec.genesisTime + 3840

theorem fits_of_numbers {w : BurnWorld NodeOperatorsRegistry}
    (h : w.burner.coverSharesBurnRequested = 60 ∧ w.burner.nonCoverSharesBurnRequested = 0 ∧
      w.burner.totalCoverSharesBurnt = 0 ∧ w.burner.totalNonCoverSharesBurnt = 0 ∧
      w.burner.maxBurnAmountPerRunBasisPoints = 5000 ∧ w.pool.lido.pooled = 120 ∧
      w.pool.lido.totalShares = 120) : Fits w := by
  obtain ⟨hcover, hnonCover, hburnt, hnoneBurnt, hquota, hpooled, htotal⟩ := h
  constructor <;> simp only [hcover, hnonCover, hburnt, hnoneBurnt, hquota, hpooled, htotal] <;>
    rw [wordLimit] <;> decide

/-- Half of the shares that there are at the burner's turn may be burnt. -/
theorem report_burns_sixty : ∃ w w',
    Runs reportingMachine (fun _ e ↦ ReportingEvent.BurnsNothing e) reportingStart w ∧
    w.outside.burn.pool.lido.totalShares = 100 ∧
    reportingMachine.step w (.oracle reportContext reportCall (.reportBeacon 10 0 0)) = .ok w' ∧
    w'.outside.burn.pool.lido.totalShares = 60 := by
  let I := registryContract deployment layout
  let row (u : OracleWorld (BehindOracle NodeOperatorsRegistry)) (l : List Address) :=
    ReportingWorld.dueRow I reportingSites reportContext u l
  have hrun : reaches reportingMachine reportingStart reportingRun (fun w ↦
      passes (w.handle (reportingSites.surroundings I reportContext).silent reportCall
        (.reportBeacon 10 0 0)) fun u ↦
          decide (w.outside.burn.pool.lido.totalShares = 100 ∧ u.pushes ≠ w.pushes ∧
            ReportingWorld.callbacksOf reportingSites u = [40, 21]) &&
          passes (row u [40]) (fun x ↦
            decide (x.pool.lido.activeFlag = u.outside.burn.pool.lido.activeFlag ∧
              x.pool.lido.oracle = u.outside.burn.pool.lido.oracle ∧
              x.burner.coverSharesBurnRequested = 60 ∧
              x.burner.nonCoverSharesBurnRequested = 0 ∧ x.burner.totalCoverSharesBurnt = 0 ∧
              x.burner.totalNonCoverSharesBurnt = 0 ∧
              x.burner.maxBurnAmountPerRunBasisPoints = 5000 ∧ x.pool.lido.pooled = 120 ∧
              x.pool.lido.totalShares = 120)) &&
          passes (row u [40, 21]) fun x ↦ decide (x.pool.lido.totalShares = 60)) = true := by
    decide +kernel
  obtain ⟨w, hruns, hw⟩ := Runs.of_reaches (p := fun _ e ↦ ReportingEvent.BurnsNothing e) hrun
    fun e he _ ↦ by
      simp only [reportingRun, List.mem_cons, List.not_mem_nil, or_false] at he
      rcases he with rfl | rfl | rfl | rfl | rfl | rfl | rfl | rfl
      any_goals trivial
      all_goals exact reportContext_burnsNothing
  obtain ⟨u, hu, hp⟩ := exists_of_passes hw
  rw [Bool.and_eq_true, Bool.and_eq_true, decide_eq_true_eq] at hp
  obtain ⟨⟨⟨hbefore, hpushes, hcallbacks⟩, hturn⟩, hafter⟩ := hp
  obtain ⟨x, hx, hx'⟩ := exists_of_passes hturn
  obtain ⟨hactive, horacle, hnumbers⟩ := of_decide_eq_true hx'
  obtain ⟨burn, hburn, htotal⟩ := exists_of_passes hafter
  obtain ⟨_, hreports⟩ := ReportingWorld.burner_blocks_no_report reportingStart_initial hruns
  have hturns : ∀ u', w.handle (reportingSites.surroundings I reportContext).silent reportCall
      (.reportBeacon 10 0 0) = .ok u' → u'.pushes ≠ w.pushes →
        ReportingWorld.UndisturbedTurns I reportingSites reportContext u' := by
    intro u' hu' _ before y hprefix hy
    cases hu.symm.trans hu'
    rw [hcallbacks] at hprefix
    have hfirst : before = [40] := by
      obtain ⟨l, hl⟩ := hprefix
      rcases before with _ | ⟨a, _ | ⟨b, before⟩⟩
      · cases hl
      · cases hl
        rfl
      · have hlength := congrArg List.length hl
        simp at hlength
    rw [hfirst] at hy
    cases hx.symm.trans hy
    exact ⟨hactive, horacle, fits_of_numbers hnumbers⟩
  have hstep := (hreports reportContext reportCall (.reportBeacon 10 0 0) _ (fun _ ↦ rfl)
    reportContext_burnsNothing hturns).mpr
      ⟨u, hu, .inr ⟨hpushes, burn, (congrArg (row u) hcallbacks).trans hburn, rfl⟩⟩
  exact ⟨w, _, hruns, hbefore, hstep, of_decide_eq_true htotal⟩

end Sample

end LidoDao
