import ViewEngine.Live.Cache
import ViewEngine.Proofs.Value.RoundTrip

/-!
# Screens that were written

A source that holds the text of a value gives back what the value means as a document. So a screen that was
written with an `onLoad` action is fetched by just that action.
-/

namespace ViewEngine

/-- A document is read from the text of a finite value as from the value, if the reader gives back its doubles. -/
theorem Source.load_of_compact {α : Type} {read? : Json → Option α} {source : Source} {name : String}
    {v : Value} {a : α} (hsource : source name = .ok (Utf8.encode (String.ofList v.compact)))
    (hfinite : v.IsFinite) (hdepth : v.depth ≤ Json.maxDepth) (hback : v.ReadsBack)
    (hread : read? v.toJson = some a) : source.load read? name = .ok a := by
  simp only [load, hsource, bind, Except.bind, Value.json_read?_encode_compact hfinite hdepth hback,
    Option.bind, hread]

/-- A screen with an `onLoad` prop and nothing else. -/
def Value.screenOf (onLoad : Value) : Value :=
  object [("props", object [("onLoad", onLoad)]), ("type", string "screen")]

theorem Node.ofJson?_screenOf {v : Value} (hfinite : v.IsFinite) (htabled : v.IsTabled) :
    Node.ofJson? v.screenOf.toJson = some { type := "screen", props := some [("onLoad", v)] } := by
  have hprops : Json.fields? (Value.object [("onLoad", v)]).toJson = some [("onLoad", v)] := by
    have hmembers :=
      Value.readMembers?_toJson [("onLoad", v)] (by simpa using hfinite) (by simpa using htabled)
    rw [Value.toJson, Json.fields?, hmembers]
    rfl
  -- The members are read from the last to the first: the type, and then the props.
  have hput : put? "props" (Value.object [("onLoad", v)]).toJson { type := some "screen" } =
      some { type := some "screen", props := some (some [("onLoad", v)]) } :=
    congrArg (fun fields : Option Fields => (Json.fill? none (fields.map some)).map fun props =>
      ({ type := some "screen", props } : Draft)) hprops
  exact congrArg (·.bind Draft.node?) hput

/-- A source in which every screen is written so. -/
def Source.ofOnLoad (onLoad : Value) : Source := fun _ =>
  .ok (Utf8.encode (String.ofList onLoad.screenOf.compact))

/-- A screen that was written with an `onLoad` action is fetched by it. -/
theorem LiveCache.onLoad_ofOnLoad {v : Value} {a : Action} (hfinite : v.IsFinite) (htabled : v.IsTabled)
    (hdepth : v.depth + 2 ≤ Json.maxDepth) (hback : v.ReadsBack) (haction : Action.ofValue? v = some a)
    (screen : String) :
    onLoad (Source.ofOnLoad v) screen = .ok a := by
  have htext : (Value.string "screen").IsFinite := Value.firstNonFinite?_eq_none _ |>.1 rfl
  have hfinite' : v.screenOf.IsFinite := by simp [Value.screenOf, Value.isFinite_object, hfinite, htext]
  have hdepth' : v.screenOf.depth ≤ Json.maxDepth := by
    have hprops : v.screenOf.depth = max (max v.depth 0 + 1) 0 + 1 := rfl
    omega
  have hback' : v.screenOf.ReadsBack := fun d hd => hback d (by
    simpa [Value.screenOf, Value.parts, Value.fieldParts] using hd)
  have hload : (Source.ofOnLoad v).loadScreen screen =
      .ok { type := "screen", props := some [("onLoad", v)] } :=
    Source.load_of_compact rfl hfinite' hdepth' hback' (Node.ofJson?_screenOf hfinite htabled)
  have hprop : Node.actionProp? { type := "screen", props := some [("onLoad", v)] } "onLoad" = some a :=
    haction
  simp only [onLoad, hload, hprop]

/-- A single call of an endpoint, as an action is written. -/
def Value.apiAction (endpoint resultKey : String) : Value :=
  object [("actionType", string "api"), ("endpoint", string endpoint), ("resultKey", string resultKey)]

theorem Value.isTabled_apiAction (endpoint resultKey : String) : (apiAction endpoint resultKey).IsTabled := by
  have hkeys : ["actionType", "endpoint", "resultKey"].Pairwise (· < ·) := by decide
  refine isTabled_object.2 ⟨List.pairwise_map.1 hkeys, ?_⟩
  simp [isTabled_string]

theorem LiveCache.onLoad_apiAction (endpoint resultKey screen : String) :
    onLoad (Source.ofOnLoad (.apiAction endpoint resultKey)) screen =
      .ok { type := "api", endpoint := some endpoint, resultKey := some resultKey } := by
  have hdepth : (Value.apiAction endpoint resultKey).depth = 1 := rfl
  refine onLoad_ofOnLoad ?_ (Value.isTabled_apiAction _ _) (hdepth ▸ by decide) ?_ rfl screen
  · exact Value.firstNonFinite?_eq_none _ |>.1 rfl
  · simp [Value.ReadsBack, Value.apiAction, Value.parts, Value.fieldParts]

end ViewEngine
