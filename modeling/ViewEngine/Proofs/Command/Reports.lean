import ViewEngine.Command.Run
import ViewEngine.Proofs.Dispatch.Effects
import ViewEngine.Proofs.Value.Refusal
import ViewEngine.Proofs.Value.RoundTrip

/-!
# What a dispatched action prints

The command that dispatches an action prints the intents that the action has, whatever the action, its data,
the settings, the fixtures or the network: the effects of its leaves in order (`reports_effects`). Where a value
is at fault there is no such list, and nothing is printed.
-/

namespace ViewEngine

theorem CommandError.status_ne_zero (e : CommandError) : e.status ≠ 0 := by
  cases e <;> simp [status]

namespace Command

/-- The answer to a dispatch: the data that it left, and the intents, on lines of their own or as a member of the
answer. -/
def dispatchAnswer (options : CommandOptions) (left : Fields) (intents : List Intent) : List String :=
  match options.format with
  | .text => (Table.toJson left).prettyText :: if options.isQuiet then [] else intents.map Intent.line
  | .json => [(Json.object [("context", Table.toJson left),
      ("intents", .array (intents.map Intent.toJson))]).prettyText]

variable {ν : Type} {m : Machine ν} {s : Settings} {options : CommandOptions} {action : String}
  {data fixtures : Option String}

theorem runDispatch_of_loaded {a : Action} {fields : Fields} {backend : Backend ν}
    (haction : loadAction m.files action = .ok a) (hdata : loadData m.files data = .ok fields)
    (hbackend : loadBackend m fixtures = .ok backend) :
    runDispatch m s options action data fixtures =
      (computed (record s.dispatch a (Backend.call s.endpoint m.send) backend fields)).map fun r =>
        { answer := dispatchAnswer options r.data r.intents, time := r.time } := by
  rw [runDispatch, haction, hdata, hbackend]
  simp only [bind, Except.bind, dispatchAnswer]
  cases record s.dispatch a (Backend.call s.endpoint m.send) backend fields with
  | error f => rfl
  | ok r => cases options.format <;> rfl

/-- What cannot be loaded ends the command before the dispatch. -/
theorem runDispatch_of_not_loaded
    (h : ¬ ∃ a fields backend, loadAction m.files action = .ok a ∧ loadData m.files data = .ok fields ∧
      loadBackend m fixtures = .ok backend) :
    ∃ e, runDispatch m s options action data fixtures = .error e := by
  rw [runDispatch]
  cases haction : loadAction m.files action with
  | error e => exact ⟨e, rfl⟩
  | ok a =>
    cases hdata : loadData m.files data with
    | error e => exact ⟨e, rfl⟩
    | ok fields =>
      cases hbackend : loadBackend m fixtures with
      | error e => exact ⟨e, rfl⟩
      | ok backend => exact absurd ⟨a, fields, backend, haction, hdata, hbackend⟩ h

theorem outcomeUnder_of_ok {report : Report} (h : runDispatch m s options action data fixtures = .ok report)
    (hmessages : report.messages = []) :
    (dispatch action data fixtures).outcomeUnder m s options =
      { status := 0, output := String.join (report.answer.map Outcome.endLine), time := report.time } := by
  rw [outcomeUnder, run, h]
  cases hquiet : options.isQuiet <;> cases hformat : options.format <;>
    simp [Outcome.ofResult, Outcome.shown, hmessages, hquiet, hformat]

/-- A command that fails prints nothing. -/
theorem outcomeUnder_of_error {e : CommandError} (h : runDispatch m s options action data fixtures = .error e) :
    ((dispatch action data fixtures).outcomeUnder m s options).output = "" ∧
      ((dispatch action data fixtures).outcomeUnder m s options).status = e.status := by
  rw [outcomeUnder, run, h]
  exact ⟨rfl, rfl⟩

/-- **A dispatch reports every intent.** The command prints the effects of the leaves of its action in order,
each with its values resolved where the leaf is performed: a screen that is asked for, a dismissal, or an event
under its own name, also after calls that were given up. It prints just these, in both formats, unless it is to be
quiet about them in text. Fixtures or whatever the network does with a request make no difference but to the
values. Where a value is at fault, or something cannot be loaded, nothing is printed. -/
theorem reports_effects {ν : Type} (m : Machine ν) (s : Settings) (options : CommandOptions) (action : String)
    (data fixtures : Option String) :
    let call := Backend.call s.endpoint m.send
    let outcome := (dispatch action data fixtures).outcomeUnder m s options
    match loadAction m.files action, loadData m.files data, loadBackend m fixtures with
    | .ok a, .ok fields, .ok backend =>
      match effects s.dispatch call a.leaves { own := fields } backend with
      | .ok intents => ∃ r, record s.dispatch a call backend fields = .ok r ∧ outcome =
          { status := 0, output := String.join ((dispatchAnswer options r.data intents).map Outcome.endLine),
            time := r.time }
      | .error f => outcome.output = "" ∧ outcome.status = (CommandError.fault f).status
    | _, _, _ => outcome.output = "" ∧ outcome.status ≠ 0 := by
  intro call outcome
  split
  case h_1 a fields backend haction hdata hbackend =>
    have hrun : runDispatch m s options action data fixtures = _ := runDispatch_of_loaded haction hdata hbackend
    rw [← record_intents]
    cases hrecord : record s.dispatch a call backend fields with
    | error f =>
      rw [hrecord] at hrun
      exact outcomeUnder_of_error hrun
    | ok r =>
      rw [hrecord] at hrun
      exact ⟨r, rfl, outcomeUnder_of_ok hrun rfl⟩
  case h_2 hnot =>
    have hfails : ∃ e, runDispatch m s options action data fixtures = .error e := by
      refine runDispatch_of_not_loaded ?_
      rintro ⟨a, fields, backend, haction, hdata, hbackend⟩
      exact hnot a fields backend haction hdata hbackend
    obtain ⟨e, he⟩ := hfails
    obtain ⟨houtput, hstatus⟩ := outcomeUnder_of_error he
    exact ⟨houtput, hstatus ▸ e.status_ne_zero⟩

theorem loadAction_of_decode? {files : Files} {path : String} {bytes : List UInt8} {v : Value} {a : Action}
    (hfile : files path = .ok bytes) (hdecode : Value.decode? bytes = some v) (hread : Action.ofValue? v = some a) :
    loadAction files path = .ok a := by
  simp only [loadAction, hfile, hdecode, hread]

theorem loadData_of_decode? {files : Files} {text : String} {fields : Fields} (hinline : isInline text = true)
    (hdecode : Value.decode? (Utf8.encode text) = some (.object fields)) :
    loadData files (some text) = .ok fields := by
  simp only [loadData, hinline, if_true, bind, Except.bind, hdecode]

/-- A value at fault takes the other intents with it: the dismissal before it is not printed either. -/
theorem late_date_drops_intents :
    let dismissal : Action := { type := "dismiss" }
    let late : Action := { type := "navigate", screen := some "s",
                           params := some [("d", .string "$.t | date:'x'")] }
    let written : Value := .object [("actionType", .string "sequence"),
      ("actions", .array [.object [("actionType", .string "dismiss")],
        .object [("actionType", .string "navigate"), ("params", .object [("d", .string "$.t | date:'x'")]),
          ("screen", .string "s")]])]
    let fields : Fields := [("t", .string "9999-12-31T23:59:59-01:00")]
    let data := String.ofList (Value.object fields).compact
    let m : Machine Unit :=
      { files := fun _ => .ok (Utf8.encode (String.ofList written.compact))
        readVariable := fun _ => none
        send := fun _ _ => (.failed "no network", ())
        network := () }
    let outcome := (dispatch "action.json" (some data) none).outcomeUnder m {} {}
    loadAction m.files "action.json" = .ok { type := "sequence", actions := some [dismissal, late] } ∧
      loadData m.files (some data) = .ok fields ∧
      dismissal.effect? { own := fields } = .ok (some .dismiss) ∧
      outcome.status = 101 ∧ outcome.output = "" := by
  intro dismissal late written fields data m outcome
  have hsequence : ["actionType", "actions"].Pairwise (· < ·) := by decide
  have hnavigate : ["actionType", "params", "screen"].Pairwise (· < ·) := by decide
  have htabled : written.IsTabled := by
    simp only [written, Value.isTabled_object, Value.isTabled_array, Value.isTabled_string, List.forall_mem_cons,
      List.not_mem_nil, false_implies, implies_true, and_true, true_and]
    exact ⟨List.pairwise_map.1 hsequence, List.pairwise_singleton _ _, List.pairwise_map.1 hnavigate,
      List.pairwise_singleton _ _⟩
  have hwritten : Value.decode? (Utf8.encode (String.ofList written.compact)) = some written :=
    Value.decode?_encode_compact htabled ((Value.firstNonFinite?_eq_none _).1 rfl) (by decide)
      (by simp [written, Value.ReadsBack, Value.parts, Value.itemParts, Value.fieldParts])
  have hdata : Value.decode? (Utf8.encode data) = some (.object fields) :=
    Value.decode?_encode_compact
      (Value.isTabled_object.2 ⟨List.pairwise_singleton _ _, by simp [fields, Value.isTabled_string]⟩)
      ((Value.firstNonFinite?_eq_none _).1 rfl) (by decide)
      (by simp [fields, Value.ReadsBack, Value.parts, Value.fieldParts])
  have haction : loadAction m.files "action.json" = .ok { type := "sequence", actions := some [dismissal, late] } :=
    loadAction_of_decode? rfl hwritten rfl
  have hfields : loadData m.files (some data) = .ok fields := loadData_of_decode? (by decide) hdata
  have hrun : runDispatch m {} {} "action.json" (some data) none = .error (.fault .yearOutOfRange) := by
    rw [runDispatch_of_loaded haction hfields rfl]
    rfl
  obtain ⟨houtput, hstatus⟩ := outcomeUnder_of_error hrun
  exact ⟨haction, hfields, rfl, hstatus, houtput⟩

end Command

end ViewEngine
