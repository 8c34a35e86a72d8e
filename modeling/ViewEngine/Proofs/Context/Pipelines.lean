import Mathlib.Data.List.Basic
import ViewEngine.Context
import ViewEngine.Proofs.Text.Splitting

/-!
# Pipelines

A path is cut at its pipes into a base and stages, and white space around each of them is dropped
(`pipeline`). What is resolved depends on nothing else: the base is looked up and the stages are applied to
what it leads to, from left to right (`Context.resolve_eq_flow`). So a stage put after a path is applied to
what the path gives, and white space is free, as long as it makes no new pipe: a bar at the end of a stage
would be taken for one.
-/

namespace ViewEngine

variable {a b t w w' cs : List Char}

/-! ## Pipes -/

theorem pipe_ne_nil : pipe ≠ [] := List.cons_ne_nil _ _

/-- A pipe across a border has its bar at the start of what follows, or at the end of what precedes. -/
theorem noneAcross_pipe (hbar : a.getLast? = some ' ' → b.head? ≠ some '|')
    (hspace : [' ', '|'] <:+ a → b.head? ≠ some ' ') : NoneAcross pipe a b := by
  rintro before after rfl hne hbegins
  match after, hne, hbegins with
  | [x], _, hbegins =>
    obtain ⟨rest, hrest⟩ := hbegins
    cases hrest
    exact absurd rfl (hbar (by simp))
  | [x, y], _, hbegins =>
    obtain ⟨rest, hrest⟩ := hbegins
    cases hrest
    exact absurd rfl (hspace (List.suffix_append before _))
  | x :: y :: z :: after, _, hbegins => simpa [pipe] using hbegins

/-- A text with no bar at its end, or none after a blank, makes no pipe with one that follows. -/
theorem noneAcross_pipe_append (h : ¬ [' ', '|'] <:+ a) (b : List Char) : NoneAcross pipe a (pipe ++ b) :=
  noneAcross_pipe (fun _ hbar => by cases hbar) fun hend => absurd hend h

/-! ## White space around a stage -/

/-- The text neither begins nor ends with a bar. -/
structure IsBarless (cs : List Char) : Prop where
  head : cs.head? ≠ some '|'
  last : cs.getLast? ≠ some '|'

theorem not_pipe_isInfix_of_isBlank (hw : ∀ c ∈ w, isBlank c = true) : ¬ pipe <:+: w := fun hoccurs =>
  absurd (hw '|' (hoccurs.subset (by simp [pipe]))) (by decide)

theorem isBarless_of_isBlank (hw : ∀ c ∈ w, isBlank c = true) : IsBarless w := by
  have hmem : '|' ∉ w := fun h => absurd (hw '|' h) (by decide)
  exact ⟨fun h => hmem (List.mem_of_mem_head? h), fun h => hmem (List.mem_of_mem_getLast? h)⟩

theorem IsBarless.append (ha : IsBarless a) (hb : IsBarless b) : IsBarless (a ++ b) := by
  constructor
  · rw [List.head?_append]
    exact fun h => (Option.or_eq_some_iff.1 h).elim ha.head fun h => hb.head h.2
  · rw [List.getLast?_append]
    exact fun h => (Option.or_eq_some_iff.1 h).elim hb.last fun h => ha.last h.2

theorem IsBarless.reverse (h : IsBarless cs) : IsBarless cs.reverse :=
  ⟨List.head?_reverse ▸ h.last, List.getLast?_reverse ▸ h.head⟩

theorem IsBarless.around (ha : IsBarless a) (hane : a ≠ []) (hb : IsBarless b) (hbne : b ≠ []) (m : List Char) :
    IsBarless (a ++ m ++ b) := by
  constructor
  · rw [List.append_assoc, List.head?_append_of_ne_nil _ hane]
    exact ha.head
  · rw [List.getLast?_append_of_ne_nil _ hbne]
    exact hb.last

theorem IsBarless.not_isSuffix (h : IsBarless cs) : ¬ [' ', '|'] <:+ cs := by
  rintro ⟨front, rfl⟩
  exact h.last (by simp)

/-- White space in front makes no pipe. -/
theorem not_pipe_isInfix_append (hw : ∀ c ∈ w, isBlank c = true) (hbar : IsBarless cs) (h : ¬ pipe <:+: cs) :
    ¬ pipe <:+: w ++ cs := by
  induction w with
  | nil => exact h
  | cons c w ih =>
    obtain ⟨-, hw⟩ := List.forall_mem_cons.1 hw
    intro hoccurs
    rcases List.infix_cons_iff.1 hoccurs with ⟨rest, hrest⟩ | hlater
    · obtain ⟨-, hnext⟩ : ' ' = c ∧ '|' :: ' ' :: rest = w ++ cs := List.cons.inj hrest
      exact ((isBarless_of_isBlank hw).append hbar).head (hnext ▸ rfl)
    · exact ih hw hlater

/-- A text with white space around it. -/
structure Spaced where
  before : List Char
  text : List Char
  after : List Char
  before_blank : ∀ c ∈ before, isBlank c = true
  after_blank : ∀ c ∈ after, isBlank c = true

namespace Spaced

/-- The text with the white space. -/
def chars (s : Spaced) : List Char := s.before ++ s.text ++ s.after

variable {s : Spaced}

theorem trim_chars (s : Spaced) : trim s.chars = trim s.text :=
  trim_padded s.before_blank s.after_blank s.text

theorem isBarless_chars (h : IsBarless s.text) : IsBarless s.chars :=
  ((isBarless_of_isBlank s.before_blank).append h).append (isBarless_of_isBlank s.after_blank)

/-- At the end white space makes no pipe either, as a pipe reads the same from the right. -/
theorem not_pipe_isInfix_chars (hbar : IsBarless s.text) (h : ¬ pipe <:+: s.text) : ¬ pipe <:+: s.chars := by
  have hmirror (ds : List Char) : pipe <:+: ds.reverse ↔ pipe <:+: ds :=
    @List.reverse_infix _ pipe ds
  have hfront := not_pipe_isInfix_append s.before_blank hbar h
  have hfrontbar := (isBarless_of_isBlank s.before_blank).append hbar
  rw [chars, ← hmirror, List.reverse_append]
  exact not_pipe_isInfix_append (fun c hc => s.after_blank c (List.mem_reverse.1 hc)) hfrontbar.reverse
    (mt (hmirror _).1 hfront)

end Spaced

theorem map_trim_weld_left (hw : ∀ c ∈ w, isBlank c = true) {ps : List (List Char)} (h : ps ≠ []) :
    (weld [w] ps).map trim = ps.map trim := by
  cases ps with
  | nil => contradiction
  | cons p ps =>
    have htrim : trim (w ++ p) = trim p := by simpa using trim_padded hw (List.forall_mem_nil _) p
    rw [weld, List.map_cons, List.map_cons, htrim]

theorem map_trim_weld_right (hw : ∀ c ∈ w, isBlank c = true) {ps : List (List Char)} (h : ps ≠ []) :
    (weld ps [w]).map trim = ps.map trim := by
  induction ps with
  | nil => contradiction
  | cons p ps ih =>
    cases ps with
    | nil =>
      have htrim : trim (p ++ w) = trim p := by simpa using trim_padded (List.forall_mem_nil _) hw p
      rw [weld, List.map_singleton, List.map_singleton, htrim]
    | cons p' ps => exact congrArg (trim p :: ·) (ih (List.cons_ne_nil p' ps))

/-- White space around a text adds to its first and its last part alone. -/
theorem Spaced.map_trim_splitAt {s : Spaced} (h : IsBarless s.text) :
    (splitAt pipe s.chars).map trim = (splitAt pipe s.text).map trim := by
  obtain ⟨before, text, after, hbefore, hafter⟩ := s
  have hwhole {w : List Char} (hw : ∀ c ∈ w, isBlank c = true) : splitAt pipe w = [w] :=
    splitAt_of_not_isInfix (not_pipe_isInfix_of_isBlank hw)
  have hfront : NoneAcross pipe before (text ++ after) :=
    noneAcross_pipe (fun _ => (h.append (isBarless_of_isBlank hafter)).head)
      fun hend => absurd hend (isBarless_of_isBlank hbefore).not_isSuffix
  have hback : NoneAcross pipe text after :=
    noneAcross_pipe (fun _ => (isBarless_of_isBlank hafter).head) fun hend => absurd hend h.not_isSuffix
  have hne : weld (splitAt pipe text) [after] ≠ [] := by
    rw [← hwhole hafter, ← splitAt_weld hback]
    exact splitAt_ne_nil _ _
  rw [chars, List.append_assoc, splitAt_weld hfront, splitAt_weld hback, hwhole hbefore, hwhole hafter,
    map_trim_weld_left hbefore hne, map_trim_weld_right hafter (splitAt_ne_nil _ _)]

/-! ## The stages of a path -/

/-- The base of a path and its stages, without the white space around each. -/
def pipeline (cs : List Char) : List (List Char) := (splitAt pipe (trim cs)).map trim

/-- What the base leads to, after each stage in turn. -/
def Context.flow (c : Context) : List (List Char) → Except Fault (Option Value)
  | [] => .ok none
  | base :: stages => stages.foldlM (fun v stage => applyStage stage v) (c.resolvePlain? base)

theorem pipeline_of_not_isInfix (h : ¬ pipe <:+: trim cs) : pipeline cs = [trim cs] := by
  rw [pipeline, splitAt_of_not_isInfix h, List.map_singleton, trim_trim]

namespace Context

variable {c : Context}

theorem applyStages_eq_foldlM (stages : List (List Char)) (v : Option Value) :
    applyStages stages v = (stages.map trim).foldlM (fun v stage => applyStage stage v) v := by
  induction stages generalizing v with
  | nil => rfl
  | cons stage stages ih =>
    rw [applyStages, List.map_cons, List.foldlM_cons]
    simp only [ih]

/-- **A path gives what its base leads to, after each stage in turn.** -/
theorem resolve_eq_flow (c : Context) (cs : List Char) : c.resolve cs = c.flow (pipeline cs) := by
  have hjoin := joinWith_splitAt pipe_ne_nil (trim cs)
  rw [resolve, pipeline]
  split
  · rename_i hparts
    exact absurd hparts (splitAt_ne_nil _ _)
  · rename_i plain hparts
    rw [hparts] at hjoin ⊢
    rw [List.map_singleton, show plain = trim cs from hjoin, trim_trim]
    rfl
  · rename_i base stages _ hparts
    rw [hparts, List.map_cons, flow, applyStages_eq_foldlM]

theorem resolve_of_pipeless (h : ¬ pipe <:+: trim cs) : c.resolve cs = .ok (c.resolvePlain? (trim cs)) := by
  rw [resolve_eq_flow, pipeline_of_not_isInfix h]
  rfl

theorem flow_concat {stages : List (List Char)} (h : stages ≠ []) (t : List Char) :
    c.flow (stages ++ [t]) = c.flow stages >>= applyStage t := by
  cases stages with
  | nil => contradiction
  | cons base stages =>
    rw [List.cons_append, flow, flow, List.foldlM_append]
    simp only [List.foldlM_cons, List.foldlM_nil, bind_pure]

end Context

/-! ## Putting pipelines together -/

/-- A text that can stand between pipes. -/
structure IsStage (t : List Char) : Prop where
  ne_nil : t ≠ []
  trimmed : trim t = t
  pipeless : ¬ pipe <:+: t

theorem pipeline_append (hne : a ≠ []) (ha : trim a = a) (hbar : ¬ [' ', '|'] <:+ a) (ht : IsStage t) :
    pipeline (a ++ pipe ++ t) = pipeline a ++ [t] := by
  rw [pipeline, trim_append hne ha ht.ne_nil ht.trimmed,
    splitAt_append_separator pipe_ne_nil (noneAcross_pipe_append hbar t), splitAt_of_not_isInfix ht.pipeless,
    List.map_append, List.map_singleton, ht.trimmed, pipeline, ha]

theorem splitAt_pipe_joinWith {stages : List (List Char)} (hne : stages ≠ [])
    (hfree : ∀ s ∈ stages, ¬ pipe <:+: s) (hbar : ∀ s ∈ stages.dropLast, ¬ [' ', '|'] <:+ s) :
    splitAt pipe (joinWith pipe stages) = stages :=
  splitAt_joinWith pipe_ne_nil hne hfree fun s hs => noneAcross_pipe_append (hbar s hs)

theorem pipeline_joinWith {stages : List (List Char)} (hne : stages ≠ []) (hstage : ∀ s ∈ stages, IsStage s)
    (hbar : ∀ s ∈ stages.dropLast, ¬ [' ', '|'] <:+ s) : pipeline (joinWith pipe stages) = stages := by
  have htrim : trim (joinWith pipe stages) = joinWith pipe stages := by
    cases stages with
    | nil => contradiction
    | cons base stages =>
      obtain ⟨hbase, hstages⟩ := List.forall_mem_cons.1 hstage
      by_cases hrest : stages = []
      · subst hrest
        exact hbase.trimmed
      · obtain ⟨m, hm, -⟩ := @exists_joinWith_cons pipe _ hrest base
        have hlast := hstages _ (List.getLast_mem hrest)
        rw [hm, trim_append hbase.ne_nil hbase.trimmed hlast.ne_nil hlast.trimmed]
  rw [pipeline, htrim, splitAt_pipe_joinWith hne (fun s hs => (hstage s hs).pipeless) hbar]
  exact (List.map_congr_left fun s hs => (hstage s hs).trimmed).trans (List.map_id stages)

/-- The first and the last of several parts of a trimmed text are not empty and have no white space outside. -/
theorem ends_of_trim {m : List Char} (h : trim cs = a ++ m ++ b) (hbegins : pipe <+: m) (hends : pipe <:+ m) :
    (a ≠ [] ∧ ∀ c ∈ a.head?, isBlank c = false) ∧ b ≠ [] ∧ ∀ c ∈ b.getLast?, isBlank c = false := by
  have hhead := isBlank_head?_trim cs
  have hlast := isBlank_getLast?_trim cs
  rw [h] at hhead hlast
  have ha : a ≠ [] := by
    rintro rfl
    obtain ⟨rest, rfl⟩ := hbegins
    exact absurd (hhead ' ' rfl) (by decide)
  have hb : b ≠ [] := by
    rintro rfl
    obtain ⟨front, rfl⟩ := hends
    exact absurd (hlast ' ' (by simp [pipe])) (by decide)
  rw [List.append_assoc, List.head?_append_of_ne_nil _ ha] at hhead
  rw [List.getLast?_append_of_ne_nil _ hb] at hlast
  exact ⟨⟨ha, hhead⟩, hb, hlast⟩

/-- Of several texts put together, the white space before the first and after the last is around the whole. -/
theorem exists_whole {rest : List Spaced} (h : rest ≠ []) (first : Spaced) : ∃ (whole : Spaced) (m : List Char),
    whole.text = first.text ++ m ++ (rest.getLast h).text ∧
      whole.chars = joinWith pipe ((first :: rest).map Spaced.chars) := by
  obtain ⟨n, hn, -⟩ := @exists_joinWith_cons pipe (rest.map Spaced.chars) (by simp [h]) first.chars
  let last := rest.getLast h
  refine ⟨{
    before := first.before
    text := first.text ++ (first.after ++ n ++ last.before) ++ last.text
    after := last.after
    before_blank := first.before_blank
    after_blank := last.after_blank }, _, rfl, ?_⟩
  rw [List.map_cons, hn, List.getLast_map]
  simp only [last, Spaced.chars, List.append_assoc]

/-- White space around the stages of a text does not change its pipeline. -/
theorem pipeline_spaced {stages : List Spaced} (hstages : stages.map Spaced.text = splitAt pipe (trim cs))
    (hbar : ∀ s ∈ stages, IsBarless s.text) : pipeline (joinWith pipe (stages.map Spaced.chars)) = pipeline cs := by
  have hjoin := joinWith_splitAt pipe_ne_nil (trim cs)
  have hfree : ∀ s ∈ stages, ¬ pipe <:+: s.text := fun s hs =>
    not_isInfix_of_mem_splitAt pipe_ne_nil (hstages ▸ List.mem_map_of_mem hs)
  rw [← hstages] at hjoin
  cases stages with
  | nil => exact absurd hstages.symm (splitAt_ne_nil _ _)
  | cons first rest =>
    by_cases hrest : rest = []
    · -- A single stage is the whole text.
      subst hrest
      have htext : first.text = trim cs := hjoin
      rw [List.map_singleton, joinWith, pipeline, first.trim_chars, htext, trim_trim, pipeline]
    · have hlastmem : rest.getLast hrest ∈ first :: rest := List.mem_cons_of_mem _ (List.getLast_mem hrest)
      obtain ⟨m, hm, hbegins, hends⟩ :=
        @exists_joinWith_cons pipe (rest.map Spaced.text) (by simp [hrest]) first.text
      rw [List.getLast_map] at hm
      obtain ⟨⟨hfirstne, hfirst⟩, hlastne, hlast⟩ := ends_of_trim (hjoin.symm.trans hm) hbegins hends
      obtain ⟨whole, n, htext, hchars⟩ := exists_whole hrest first
      have htrim : trim whole.text = whole.text := by rw [htext, trim_between hfirstne hfirst hlastne hlast]
      have hwhole : IsBarless whole.text := by
        rw [htext]
        exact (hbar first List.mem_cons_self).around hfirstne (hbar _ hlastmem) hlastne n
      have hsplit : splitAt pipe whole.chars = (first :: rest).map Spaced.chars := by
        rw [hchars]
        refine splitAt_pipe_joinWith (by simp) (List.forall_mem_map.2 fun s hs => ?_) fun t ht => ?_
        · exact Spaced.not_pipe_isInfix_chars (hbar s hs) (hfree s hs)
        · obtain ⟨s, hs, rfl⟩ := List.mem_map.1 (List.mem_of_mem_dropLast ht)
          exact (Spaced.isBarless_chars (hbar s hs)).not_isSuffix
      calc pipeline (joinWith pipe ((first :: rest).map Spaced.chars))
          = (splitAt pipe whole.text).map trim := by rw [← hchars, pipeline, whole.trim_chars, htrim]
        _ = (splitAt pipe whole.chars).map trim := (Spaced.map_trim_splitAt hwhole).symm
        _ = ((first :: rest).map Spaced.text).map trim := by
          rw [hsplit, List.map_map, List.map_map]
          exact List.map_congr_left fun s _ => s.trim_chars
        _ = pipeline cs := by rw [hstages, pipeline]

namespace Context

/-- **Pipelines compose stage by stage.** A stage after a text is applied to what the text gives, whatever
stages the text itself has; only a bar at its end after a blank would run into the pipe. White space around
the whole text is free, and so it is around any stage, as long as no stage begins or ends with a bar. So a base
with any number of stages gives what the base leads to, after each stage in turn. -/
theorem pipelines_compose (c : Context) :
    (∀ a t : List Char, a ≠ [] → trim a = a → ¬ [' ', '|'] <:+ a → IsStage t →
      c.resolve (a ++ pipe ++ t) = c.resolve a >>= applyStage t) ∧
    (∀ s : Spaced, c.resolve s.chars = c.resolve s.text) ∧
    (∀ (text : List Char) (stages : List Spaced), stages.map Spaced.text = splitAt pipe (trim text) →
      (∀ s ∈ stages, IsBarless s.text) → c.resolve (joinWith pipe (stages.map Spaced.chars)) = c.resolve text) ∧
    (∀ (base : List Char) (stages : List (List Char)), (∀ s ∈ base :: stages, IsStage s) →
      (∀ s ∈ (base :: stages).dropLast, ¬ [' ', '|'] <:+ s) →
      c.resolve base = .ok (c.resolvePlain? base) ∧
        c.resolve (joinWith pipe (base :: stages)) =
          stages.foldlM (fun v stage => applyStage stage v) (c.resolvePlain? base)) := by
  refine ⟨fun a t hne ha hbar ht => ?_, fun s => ?_, fun text stages hstages hbar => ?_,
    fun base stages hstage hbar => ⟨?_, ?_⟩⟩
  · have hparts : pipeline a ≠ [] := by simp [pipeline, splitAt_ne_nil]
    rw [resolve_eq_flow, resolve_eq_flow, pipeline_append hne ha hbar ht, flow_concat hparts]
  · rw [resolve_eq_flow, resolve_eq_flow, pipeline, pipeline, s.trim_chars]
  · rw [resolve_eq_flow, resolve_eq_flow, pipeline_spaced hstages hbar]
  · have hbase := hstage base List.mem_cons_self
    rw [resolve_eq_flow, pipeline_of_not_isInfix (hbase.trimmed.symm ▸ hbase.pipeless), hbase.trimmed]
    rfl
  · rw [resolve_eq_flow, pipeline_joinWith (List.cons_ne_nil base stages) hstage hbar, flow]

theorem pipelines_compose_shown :
    let c : Context := ⟨[("a", .string "hello")], []⟩
    let spaced : List Spaced := [
      ⟨['\t'], "$.b".toList, [' '], List.forall_mem_singleton.2 rfl, List.forall_mem_singleton.2 rfl⟩,
      ⟨[], "default:hello".toList, [], List.forall_mem_nil _, List.forall_mem_nil _⟩,
      ⟨[' '], "truncate:2".toList, ['\n'], List.forall_mem_singleton.2 rfl, List.forall_mem_singleton.2 rfl⟩]
    c.resolve "$.b | default:hello | truncate:2".toList =
        c.resolve "$.b | default:hello".toList >>= applyStage "truncate:2".toList ∧
      joinWith pipe (spaced.map Spaced.chars) = "\t$.b  | default:hello |  truncate:2\n".toList ∧
      c.resolve "\t$.b  | default:hello |  truncate:2\n".toList = .ok (some (.string "he…")) := by
  intro c spaced
  obtain ⟨happend, -, hspaced, hstages⟩ := c.pipelines_compose
  have hbase : ∀ s ∈ ["$.b".toList, "default:hello".toList, "truncate:2".toList], IsStage s := by
    simp only [List.forall_mem_cons]
    exact ⟨⟨by decide, by decide, by decide⟩, ⟨by decide, by decide, by decide⟩,
      ⟨by decide, by decide, by decide⟩, nofun⟩
  refine ⟨?_, by decide, ?_⟩
  · exact happend "$.b | default:hello".toList "truncate:2".toList (by decide) (by decide) (by decide)
      ⟨by decide, by decide, by decide⟩
  · have hplain := (hstages "$.b".toList ["default:hello".toList, "truncate:2".toList] hbase (by decide)).2
    refine (hspaced "$.b | default:hello | truncate:2".toList spaced (by decide) ?_).trans (hplain.trans rfl)
    simp only [spaced, List.forall_mem_cons]
    exact ⟨⟨by decide, by decide⟩, ⟨by decide, by decide⟩, ⟨by decide, by decide⟩, nofun⟩

end Context

end ViewEngine
