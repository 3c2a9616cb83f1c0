import LidoDao.OrderedCallbacksArray

namespace LidoDao

open Evm Library.Outcome Library.ShiftedArray Library.Transition

namespace OrderedCallbacksArray

variable {a a' : OrderedCallbacksArray} {c : CallbacksCall} {callback msgSender : Address}
  {atIndex : ℕ}

/-- What is asked of a callback and of the place it is inserted at. -/
structure Insertable (a : OrderedCallbacksArray) (c : CallbacksCall) (callback : Address)
    (atIndex : ℕ) : Prop where
  nonzero : callback ≠ 0
  supports : c.supportsInterface callback a.requiredInterface = true
  index : atIndex ≤ a.callbacks.length
  room : a.callbacks.length < 16

theorem openGap_ok (h : atIndex ≤ a.callbacks.length) (callback : Address) :
    ∃ l, (if 0 < a.callbacks.length then
        openGap atIndex a.callbacks.length (a.callbacks ++ [0])
      else some (a.callbacks ++ [0])) = some l ∧ atIndex < l.length ∧
      l.set atIndex callback = a.callbacks.insertIdx atIndex callback := by
  obtain ⟨l, hl, hlt, hset⟩ := openGap_eq_insertIdx h 0 callback
  refine ⟨l, ?_, hlt, hset⟩
  split
  · exact hl
  · rename_i hempty
    rw [Nat.eq_zero_of_not_pos hempty] at hl
    exact hl

theorem _insertCallback_eq_ok : a._insertCallback c callback atIndex = .ok a' ↔
    a.Insertable c callback atIndex ∧
      a' = { a with callbacks := a.callbacks.insertIdx atIndex callback } := by
  simp only [_insertCallback, bind_eq_ok, require_eq_ok, exists_const, pure_eq, Except.ok.injEq]
  constructor
  · intro h
    obtain ⟨hzero, hsupports, hindex, hroom, l, hl, _, rfl⟩ := h
    obtain ⟨l', hl', _, hset⟩ := openGap_ok hindex callback
    rw [hl'] at hl
    cases hl
    rw [hset]
    exact ⟨⟨hzero, hsupports, hindex, hroom⟩, rfl⟩
  · intro h
    obtain ⟨⟨hzero, hsupports, hindex, hroom⟩, rfl⟩ := h
    obtain ⟨l, hl, hlt, hset⟩ := openGap_ok hindex callback
    rw [← hset]
    exact ⟨hzero, hsupports, hindex, hroom, l, congrArg (inBounds _) hl, hlt, rfl⟩

theorem insertCallback_eq_ok : a.insertCallback c callback atIndex = .ok a' ↔
    c.sender = a.voting ∧ a.Insertable c callback atIndex ∧
      a' = { a with callbacks := a.callbacks.insertIdx atIndex callback } := by
  simp only [insertCallback, onlyVoting, bind_eq_ok, require_eq_ok, exists_const,
    _insertCallback_eq_ok]

theorem addCallback_eq_ok : a.addCallback c callback = .ok a' ↔
    c.sender = a.voting ∧ a.Insertable c callback a.callbacks.length ∧
      a' = { a with callbacks := a.callbacks ++ [callback] } := by
  simp only [addCallback, onlyVoting, bind_eq_ok, require_eq_ok, exists_const,
    _insertCallback_eq_ok, List.insertIdx_length_self]

theorem removeCallback_eq_ok : a.removeCallback msgSender atIndex = .ok a' ↔
    msgSender = a.voting ∧ atIndex < a.callbacks.length ∧
      a' = { a with callbacks := a.callbacks.eraseIdx atIndex } := by
  simp only [removeCallback, onlyVoting, bind_eq_ok, require_eq_ok, exists_const, pure_eq,
    Except.ok.injEq, Checked.sub_eq_ok]
  constructor
  · intro h
    obtain ⟨hvoting, hindex, _, ⟨_, rfl⟩, l, hl, _, rfl⟩ := h
    obtain ⟨l', hl', _, herase⟩ := closeGap_eq_eraseIdx hindex
    rw [hl'] at hl
    cases hl
    rw [herase]
    exact ⟨hvoting, hindex, rfl⟩
  · intro h
    obtain ⟨hvoting, hindex, rfl⟩ := h
    obtain ⟨l, hl, hne, herase⟩ := closeGap_eq_eraseIdx hindex
    rw [← herase]
    exact ⟨hvoting, hindex, _, ⟨by omega, rfl⟩, l, congrArg (inBounds _) hl, hne, rfl⟩

/-- The callbacks that a deployed array can hold. -/
structure Sane (a : OrderedCallbacksArray) : Prop where
  length_le : a.callbacks.length ≤ 16
  nonzero : 0 ∉ a.callbacks

theorem Sane.insert (h : a.Sane) (hinsert : a.Insertable c callback atIndex) :
    { a with callbacks := a.callbacks.insertIdx atIndex callback : OrderedCallbacksArray }.Sane where
  length_le := by
    have hroom := hinsert.room
    dsimp only
    rw [List.length_insertIdx_of_le_length hinsert.index]
    exact hroom
  nonzero hzero := by
    rcases (List.mem_insertIdx hinsert.index).mp hzero with heq | hold
    · exact hinsert.nonzero heq.symm
    · exact h.nonzero hold

theorem Sane.erase (h : a.Sane) (atIndex : ℕ) :
    { a with callbacks := a.callbacks.eraseIdx atIndex : OrderedCallbacksArray }.Sane where
  length_le := (List.length_eraseIdx_le _ _).trans h.length_le
  nonzero hzero := h.nonzero (List.mem_of_mem_eraseIdx hzero)

end OrderedCallbacksArray

namespace CompositePostRebaseBeaconReceiver

variable {X : Type} {S : CallbackSurroundings X} {r : CompositePostRebaseBeaconReceiver}

theorem callBack_range' {n i : ℕ} (h : i + n = r.callbacks.length) (post pre elapsed : ℕ) (x : X) :
    callBack S r post pre elapsed (List.range' i n) x =
      (r.callbacks.drop i).foldlM
        (fun x callback ↦ S.processLidoOracleReport callback x post pre elapsed) x := by
  induction n generalizing i x with
  | zero =>
    rw [List.drop_eq_nil_of_le (by omega)]
    rfl
  | succ n ih =>
    have hi : i < r.callbacks.length := by omega
    rw [List.range'_succ, callBack, List.getElem?_eq_getElem hi, List.drop_eq_getElem_cons hi,
      List.foldlM_cons]
    dsimp only
    cases S.processLidoOracleReport r.callbacks[i] x post pre elapsed with
    | error e => rfl
    | ok x' => exact ih (i := i + 1) (by omega) x'

theorem processLidoOracleReport_eq (msgSender : Address) (post pre elapsed : ℕ) (x : X) :
    r.processLidoOracleReport S msgSender post pre elapsed x = (do
      r.onlyOracle msgSender
      r.callbacks.foldlM
        (fun x callback ↦ S.processLidoOracleReport callback x post pre elapsed) x) := by
  simp only [processLidoOracleReport, List.range_eq_range',
    callBack_range' (Nat.zero_add _), List.drop_zero]

theorem foldlM_eq_error {f : X → Address → Except Revert X} {before after : List Address}
    {callback : Address} {x x' : X} {e : Revert} (hbefore : before.foldlM f x = .ok x')
    (hcallback : f x' callback = .error e) :
    (before ++ callback :: after).foldlM f x = .error e := by
  rw [List.foldlM_append, hbefore, ok_bind, List.foldlM_cons, hcallback]
  rfl

end CompositePostRebaseBeaconReceiver

namespace ReceiverWorld

variable {X : Type} {S : CallbackSurroundings X} {w w' : ReceiverWorld X}

def withCallbacks (w : ReceiverWorld X) (callbacks : List Address) : ReceiverWorld X :=
  { w with receiver := { w.receiver with callbacks } }

theorem onArray_eq_ok {f : OrderedCallbacksArray → Except Revert OrderedCallbacksArray}
    {p : Prop} {l : List Address}
    (hf : ∀ a', f w.receiver.toOrderedCallbacksArray = .ok a' ↔
      p ∧ a' = { w.receiver.toOrderedCallbacksArray with callbacks := l }) :
    w.onArray f = .ok w' ↔ p ∧ w' = w.withCallbacks l := by
  simp only [onArray, bind_eq_ok, hf, pure_eq, Except.ok.injEq]
  constructor
  · intro h
    obtain ⟨_, ⟨hp, rfl⟩, rfl⟩ := h
    exact ⟨hp, rfl⟩
  · intro h
    obtain ⟨hp, rfl⟩ := h
    exact ⟨_, ⟨hp, rfl⟩, rfl⟩

theorem insert_eq_ok {c : CallbacksCall} {callback : Address} {atIndex : ℕ} :
    w.step S (.insertCallback c callback atIndex) = .ok w' ↔
      (c.sender = w.receiver.voting ∧ w.receiver.Insertable c callback atIndex) ∧
        w' = w.withCallbacks (w.receiver.callbacks.insertIdx atIndex callback) := by
  rw [step]
  exact onArray_eq_ok fun _ ↦ OrderedCallbacksArray.insertCallback_eq_ok.trans and_assoc.symm

theorem add_eq_ok {c : CallbacksCall} {callback : Address} :
    w.step S (.addCallback c callback) = .ok w' ↔
      (c.sender = w.receiver.voting ∧
          w.receiver.Insertable c callback w.receiver.callbacks.length) ∧
        w' = w.withCallbacks (w.receiver.callbacks ++ [callback]) := by
  rw [step]
  exact onArray_eq_ok fun _ ↦ OrderedCallbacksArray.addCallback_eq_ok.trans and_assoc.symm

theorem remove_eq_ok {msgSender : Address} {atIndex : ℕ} :
    w.step S (.removeCallback msgSender atIndex) = .ok w' ↔
      (msgSender = w.receiver.voting ∧ atIndex < w.receiver.callbacks.length) ∧
        w' = w.withCallbacks (w.receiver.callbacks.eraseIdx atIndex) := by
  rw [step]
  exact onArray_eq_ok fun _ ↦ OrderedCallbacksArray.removeCallback_eq_ok.trans and_assoc.symm

theorem remove_insert {c : CallbacksCall} {callback : Address} {atIndex : ℕ}
    (h : w.step S (.insertCallback c callback atIndex) = .ok w') :
    w'.step S (.removeCallback w.receiver.voting atIndex) = .ok w := by
  obtain ⟨⟨_, hinsert⟩, rfl⟩ := insert_eq_ok.mp h
  refine remove_eq_ok.mpr ⟨⟨rfl, ?_⟩, ?_⟩
  · dsimp only [withCallbacks]
    rw [List.length_insertIdx_of_le_length hinsert.index]
    exact Nat.lt_succ_of_le hinsert.index
  · simp only [withCallbacks, List.eraseIdx_insertIdx_self]

theorem process_eq (post pre elapsed : ℕ) :
    w.step S (.processLidoOracleReport w.receiver.oracle post pre elapsed) = (do
      let outside ← w.receiver.callbacks.foldlM
        (fun x callback ↦ S.processLidoOracleReport callback x post pre elapsed) w.outside
      pure { w with outside }) := by
  rw [step, CompositePostRebaseBeaconReceiver.processLidoOracleReport_eq,
    CompositePostRebaseBeaconReceiver.onlyOracle, require_of rfl, ok_bind]

theorem step_sane {i : ReceiverEvent X} (h : w.receiver.Sane) (hs : w.step S i = .ok w') :
    w'.receiver.Sane := by
  cases i with
  | addCallback c callback =>
    obtain ⟨⟨_, hinsert⟩, rfl⟩ := add_eq_ok.mp hs
    have hsane := h.insert hinsert
    rw [List.insertIdx_length_self] at hsane
    exact hsane
  | insertCallback c callback atIndex =>
    obtain ⟨⟨_, hinsert⟩, rfl⟩ := insert_eq_ok.mp hs
    exact h.insert hinsert
  | removeCallback msgSender atIndex =>
    obtain ⟨_, rfl⟩ := remove_eq_ok.mp hs
    exact h.erase atIndex
  | processLidoOracleReport msgSender post pre elapsed =>
    obtain ⟨x, _, heq⟩ := bind_eq_ok.mp hs
    cases heq
    exact h
  | outside x =>
    cases hs
    exact h

theorem initial_callbacks (h : Initial S w) : w.receiver.callbacks = [] := by
  obtain ⟨voting, oracle, h⟩ := h
  obtain ⟨a, ha, h⟩ := bind_eq_ok.mp h
  simp only [OrderedCallbacksArray.constructor, bind_eq_ok, require_eq_ok, exists_const, pure_eq,
    Except.ok.injEq] at ha h
  obtain ⟨_, _, rfl⟩ := ha
  rw [← h.2]

theorem reachable_sane (h : Reachable (machine S) w) : w.receiver.Sane := by
  refine h.invariant (P := fun w ↦ w.receiver.Sane) (fun w hw ↦ ?_)
    fun w i w' _ hsane hs ↦ step_sane hsane hs
  have hempty := initial_callbacks hw
  constructor
  · rw [hempty]
    exact Nat.zero_le 16
  · rw [hempty]
    exact List.not_mem_nil

/-- The array is a list of at most 16 callbacks that `VOTING` inserts into and removes from at
any position, and `ORACLE` has all of them called, in order, or none. -/
theorem callbacks_are_an_ordered_list (h : Reachable (machine S) w) :
    (w.receiver.callbacks.length ≤ 16 ∧ 0 ∉ w.receiver.callbacks) ∧
    (∀ (c : CallbacksCall) (callback : Address) (atIndex : ℕ), c.sender = w.receiver.voting →
      ((∃ w', w.step S (.insertCallback c callback atIndex) = .ok w') ↔
        callback ≠ 0 ∧ c.supportsInterface callback w.receiver.requiredInterface = true ∧
          atIndex ≤ w.receiver.callbacks.length ∧ w.receiver.callbacks.length < 16) ∧
      ∀ w', w.step S (.insertCallback c callback atIndex) = .ok w' →
        w' = w.withCallbacks (w.receiver.callbacks.take atIndex ++ [callback] ++
          w.receiver.callbacks.drop atIndex) ∧
        w'.step S (.removeCallback w.receiver.voting atIndex) = .ok w) ∧
    (∀ (c : CallbacksCall) (callback : Address), c.sender = w.receiver.voting →
      w.step S (.addCallback c callback) =
        w.step S (.insertCallback c callback w.receiver.callbacks.length) ∧
      ∀ w', w.step S (.addCallback c callback) = .ok w' →
        w' = w.withCallbacks (w.receiver.callbacks ++ [callback])) ∧
    (∀ atIndex : ℕ,
      ((∃ w', w.step S (.removeCallback w.receiver.voting atIndex) = .ok w') ↔
        atIndex < w.receiver.callbacks.length) ∧
      ∀ w', w.step S (.removeCallback w.receiver.voting atIndex) = .ok w' →
        w' = w.withCallbacks (w.receiver.callbacks.take atIndex ++
          w.receiver.callbacks.drop (atIndex + 1))) ∧
    ∀ post pre elapsed : ℕ,
      (w.step S (.processLidoOracleReport w.receiver.oracle post pre elapsed) = do
        let outside ← w.receiver.callbacks.foldlM
          (fun x callback ↦ S.processLidoOracleReport callback x post pre elapsed) w.outside
        pure { w with outside }) ∧
      ∀ (before after : List Address) (callback : Address) (x : X) (e : Revert),
        w.receiver.callbacks = before ++ callback :: after →
        before.foldlM (fun x callback ↦ S.processLidoOracleReport callback x post pre elapsed)
          w.outside = .ok x →
        S.processLidoOracleReport callback x post pre elapsed = .error e →
        w.step S (.processLidoOracleReport w.receiver.oracle post pre elapsed) = .error e := by
  have hsane := reachable_sane h
  refine ⟨⟨hsane.length_le, hsane.nonzero⟩, fun c callback atIndex hvoting ↦ ⟨?_, ?_⟩,
    fun c callback hvoting ↦ ⟨rfl, ?_⟩, fun atIndex ↦ ⟨?_, ?_⟩,
    fun post pre elapsed ↦ ⟨process_eq post pre elapsed, ?_⟩⟩
  · constructor
    · intro h
      obtain ⟨w', hw'⟩ := h
      obtain ⟨⟨_, hinsert⟩, _⟩ := insert_eq_ok.mp hw'
      exact ⟨hinsert.nonzero, hinsert.supports, hinsert.index, hinsert.room⟩
    · intro h
      obtain ⟨hnonzero, hsupports, hindex, hroom⟩ := h
      exact ⟨_, insert_eq_ok.mpr ⟨⟨hvoting, hnonzero, hsupports, hindex, hroom⟩, rfl⟩⟩
  · intro w' hw'
    obtain ⟨⟨_, hinsert⟩, heq⟩ := insert_eq_ok.mp hw'
    rw [insertIdx_eq_take_append_drop hinsert.index] at heq
    exact ⟨heq, remove_insert hw'⟩
  · intro w' hw'
    exact (add_eq_ok.mp hw').2
  · constructor
    · intro h
      obtain ⟨w', hw'⟩ := h
      exact (remove_eq_ok.mp hw').1.2
    · intro hindex
      exact ⟨_, remove_eq_ok.mpr ⟨⟨rfl, hindex⟩, rfl⟩⟩
  · intro w' hw'
    rw [(remove_eq_ok.mp hw').2, List.eraseIdx_eq_take_drop_succ]
  · intro before after callback x e hsplit hbefore hcallback
    rw [process_eq, hsplit,
      CompositePostRebaseBeaconReceiver.foldlM_eq_error hbefore hcallback]
    rfl

section Sample

def notedCallbacks : CallbackSurroundings (List (Address × ℕ)) where
  processLidoOracleReport callback notes post _ _ :=
    if callback = 9 then .error .silent else .ok (notes ++ [(callback, post)])
  beaconReportReceiverId := 1

def votingCall : CallbacksCall := ⟨1, fun _ interface ↦ interface = 1⟩

theorem callbacks_are_an_ordered_list_noted : ∃ w w' : ReceiverWorld (List (Address × ℕ)),
    w.receiver.callbacks = [5, 6] ∧
    w.step notedCallbacks (.insertCallback votingCall 7 1) = .ok w' ∧
    w'.receiver.callbacks = [5, 7, 6] ∧
    w'.step notedCallbacks (.removeCallback 1 1) = .ok w ∧
    w.step notedCallbacks (.processLidoOracleReport 2 100 90 8) =
      .ok { w with outside := [(5, 100), (6, 100)] } := by
  have hinitial : Reachable (machine notedCallbacks) ⟨⟨⟨1, 1, []⟩, 2⟩, []⟩ :=
    .initial ⟨1, 2, rfl⟩
  have hrun : reaches (machine notedCallbacks) ⟨⟨⟨1, 1, []⟩, 2⟩, []⟩
      [.addCallback votingCall 6, .insertCallback votingCall 5 0, .addCallback votingCall 9,
        .removeCallback 1 2]
      (fun w ↦ decide (w.receiver = ⟨⟨1, 1, [5, 6]⟩, 2⟩ ∧ w.outside = [])) = true := by
    decide +kernel
  obtain ⟨⟨receiver, outside⟩, hw, hp⟩ := hinitial.of_reaches hrun
  obtain ⟨hreceiver, houtside⟩ := of_decide_eq_true hp
  dsimp only at hreceiver houtside
  subst hreceiver houtside
  obtain ⟨_, hinsert, _, _, hprocess⟩ := callbacks_are_an_ordered_list hw
  obtain ⟨hiff, hresult⟩ := hinsert votingCall 7 1 rfl
  obtain ⟨w', hw'⟩ := hiff.mpr (by decide)
  obtain ⟨hafter, hback⟩ := hresult w' hw'
  refine ⟨_, w', rfl, hw', ?_, hback, ?_⟩
  · rw [hafter]
    rfl
  · exact (hprocess 100 90 8).1

end Sample

end ReceiverWorld

end LidoDao
