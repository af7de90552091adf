import Mathlib.Data.List.Basic
import ApiLint.Log.Streams

/-!
# Every record reaches one stream

Setting up may be repeated at any time, with other levels. Each time the handlers of the setup
before are replaced and handlers of others stay. Between two setups every record of the package that
is let through is written once, to the stream that its level belongs to under the last setup, and
records keep their order.
-/

namespace ApiLint

/-! ### The standard format -/

namespace LogFormat

/-- Whether a format has a line for every record. -/
def ShowsAll (f : LogFormat) : Prop := ∀ r, (f.line? r).isSome

lemma expand_cons {c : Char} (h : c ≠ '%') (r : LogRecord) (cs : List Char) :
    expand r (c :: cs) = (c :: ·) <$> expand r cs :=
  expand.eq_4 r c cs (fun _ hc _ => h hc) h

/-- A text without directives stays. -/
lemma expand_append {front : List Char} (h : '%' ∉ front) (r : LogRecord) (cs : List Char) :
    expand r (front ++ cs) = (front ++ ·) <$> expand r cs := by
  induction front with
  | nil => exact (id_map (expand r cs)).symm
  | cons c front ih =>
    rw [List.mem_cons, not_or] at h
    rw [List.cons_append, expand_cons (Ne.symm h.1), ih h.2]
    cases expand r cs <;> rfl

/-- A directive for a text is replaced by the text. -/
lemma expand_directive {r : LogRecord} {cs rest : List Char} {d : LogDirective}
    {shown : List Char} (hread : LogDirective.read? cs = some (d, rest))
    (hpercent : ∀ more, cs ≠ '%' :: more) (hshown : d.shown? r = some shown) :
    expand r ('%' :: cs) = (shown ++ ·) <$> expand r rest := by
  rw [expand.eq_3 r cs hpercent]
  split
  · next hread' =>
    rw [hread] at hread'
    cases hread'
    rw [hshown]
    rfl
  · next hread' => rw [hread] at hread'; cases hread'

/-- A directive without width and precision shows a text as it is. -/
lemma ofText?_plain (field text : String) :
    LogDirective.ofText? ⟨field, [], 0, none, 's'⟩ text = some text.toList := by
  simp [LogDirective.ofText?, LogDirective.showText, LogDirective.fill]

/-- The standard line of a record. -/
def standardLine (r : LogRecord) : String :=
  r.logger ++ " - " ++ LogLevel.label r.level ++ " - " ++ r.message

lemma line?_standard (r : LogRecord) : standard.line? r = some (standardLine r) := by
  have htext : standard.text.toList = '%' :: "(name)s - %(levelname)s - %(message)s".toList := by
    decide +kernel
  have hname : LogDirective.read? "(name)s - %(levelname)s - %(message)s".toList
      = some (⟨"name", [], 0, none, 's'⟩,
        " - ".toList ++ '%' :: "(levelname)s - %(message)s".toList) := by decide +kernel
  have hlevel : LogDirective.read? "(levelname)s - %(message)s".toList
      = some (⟨"levelname", [], 0, none, 's'⟩, " - ".toList ++ '%' :: "(message)s".toList) := by
    decide +kernel
  have hmessage : LogDirective.read? "(message)s".toList
      = some (⟨"message", [], 0, none, 's'⟩, []) := by decide +kernel
  have hdash : '%' ∉ " - ".toList := by decide
  have hopen : ∀ cs more, '(' :: cs ≠ '%' :: more := by simp
  rw [line?, htext, expand_directive hname (hopen _) (ofText?_plain _ _), expand_append hdash,
    expand_directive hlevel (hopen _) (ofText?_plain _ _), expand_append hdash,
    expand_directive hmessage (hopen _) (ofText?_plain _ _), expand]
  simp [standardLine, ← String.toList_inj]

lemma showsAll_standard : standard.ShowsAll := fun r => by rw [line?_standard]; rfl

end LogFormat

/-! ### Setups -/

/-- What is set up: the level of the package, which is above zero, the border between the streams,
and a format that shows every record. -/
structure LogSetup where
  level : Int
  border : Int
  format : LogFormat := .standard
  level_pos : 0 < level
  showsAll : format.ShowsAll := by exact LogFormat.showsAll_standard

/-- What happens to the log: it is set up, or a logger hands in a record. -/
inductive LogEvent
  | setUp (setup : LogSetup)
  | record (record : LogRecord)

namespace LogSetup

/-- The stream of records of a level. -/
def streamOf (s : LogSetup) (level : Int) : ConsoleStream :=
  if max s.border debugLevel ≤ level then .err else .out

/-- The line of a record. -/
def lineOf (s : LogSetup) (r : LogRecord) : String := (s.format.line? r).get (s.showsAll r)

lemma lineOf_standard {s : LogSetup} (h : s.format = .standard) (r : LogRecord) :
    s.lineOf r = LogFormat.standardLine r := by
  apply Option.some.inj
  rw [lineOf, Option.some_get, h, LogFormat.line?_standard]

/-- The handler of the standard output. -/
def low (s : LogSetup) : LogHandler :=
  { stream := .out, below := some (max s.border debugLevel), format := s.format, installed := true }

/-- The handler of the standard error stream. -/
def high (s : LogSetup) : LogHandler :=
  { stream := .err, least := max s.border debugLevel, format := s.format, installed := true }

/-- One of the two handlers takes a record and the other does not: what is below the border and what
is not below it is everything, and nothing is both. -/
lemma write_low_append_write_high {s : LogSetup} {r : LogRecord} (h : s.level ≤ r.level) :
    s.low.write r ++ s.high.write r = Console.line (s.streamOf r.level) (s.lineOf r) := by
  have hline : s.format.line? r = some (s.lineOf r) := (Option.some_get _).symm
  have hlow : s.low.takes r.level = true ↔ r.level < max s.border debugLevel := by
    have hleast : s.low.least ≤ r.level := Int.le_trans (Int.le_of_lt s.level_pos) h
    have hbelow : s.low.below = some (max s.border debugLevel) := rfl
    simp [LogHandler.takes, hleast, hbelow]
  have hhigh : s.high.takes r.level = true ↔ max s.border debugLevel ≤ r.level := by
    have hbelow : s.high.below = none := rfl
    rw [LogHandler.takes, hbelow, Option.all_none, Bool.and_true, decide_eq_true_iff]
    exact Iff.rfl
  rw [LogHandler.write, LogHandler.write, streamOf]
  by_cases hborder : max s.border debugLevel ≤ r.level
  · rw [if_neg (mt hlow.mp (Int.not_lt.mpr hborder)), if_pos (hhigh.mpr hborder), if_pos hborder]
    simp [high, hline]
  · rw [if_pos (hlow.mpr (Int.not_le.mp hborder)), if_neg (mt hhigh.mp hborder), if_neg hborder]
    simp [low, hline]

/-- What is written for a record under a setup, when there are handlers of others as well. Below the
level that is nothing; otherwise one line stands behind what the others write. Records of loggers
that are not of the package are none of its business. -/
def written (s : LogSetup) (others : List LogHandler) (r : LogRecord) : Console :=
  if Logging.isInPackage r.logger then
    if s.level ≤ r.level then
      others.flatMap (·.write r) ++ Console.line (s.streamOf r.level) (s.lineOf r)
    else []
  else Logging.write {} r

end LogSetup

namespace Logging

/-- The handlers that no setup has installed. -/
def others (g : Logging) : List LogHandler := g.handlers.filter (!·.installed)

/-- The log after an event. -/
def after (g : Logging) : LogEvent → Logging
  | .setUp s => g.configure s.level s.border s.format
  | .record _ => g

/-- What is written at an event. -/
def writtenAt (g : Logging) : LogEvent → Console
  | .setUp _ => []
  | .record r => g.write r

/-- The log after events. -/
def afterAll (g : Logging) (events : List LogEvent) : Logging := events.foldl after g

/-- What is written at events. -/
def session (g : Logging) : List LogEvent → Console
  | [] => []
  | e :: events => g.writtenAt e ++ (g.after e).session events

/-- The records among events, each with the last setup before it. -/
def underLast : LogSetup → List LogEvent → List (LogSetup × LogRecord)
  | _, [] => []
  | _, .setUp s :: events => underLast s events
  | s, .record r :: events => (s, r) :: underLast s events

variable {g : Logging}

lemma others_after (g : Logging) (e : LogEvent) : (g.after e).others = g.others := by
  cases e with
  | setUp s => simp [after, others, configure, List.filter_append]
  | record r => rfl

lemma others_afterAll (g : Logging) (events : List LogEvent) :
    (g.afterAll events).others = g.others := by
  induction events generalizing g with
  | nil => rfl
  | cons e events ih => exact (ih (g.after e)).trans (others_after g e)

/-- Setting up installs two handlers and removes those installed before. -/
lemma handlers_after_setUp (g : Logging) (s : LogSetup) :
    (g.after (.setUp s)).handlers = g.others ++ [s.low, s.high] := rfl

lemma installed_after_setUp (g : Logging) (s : LogSetup) :
    (g.after (.setUp s)).handlers.filter (·.installed) = [s.low, s.high] := by
  have hnone : g.others.filter (·.installed) = [] := by simp [others, List.filter_filter]
  rw [handlers_after_setUp, List.filter_append, hnone]
  rfl

/-- What is written under a setup. -/
lemma write_after_setUp (g : Logging) (s : LogSetup) (r : LogRecord) :
    (g.after (.setUp s)).write r = s.written g.others r := by
  by_cases hpackage : isInPackage r.logger
  · have hthreshold : (g.after (.setUp s)).threshold = s.level :=
      if_neg (Int.ne_of_gt s.level_pos)
    have henabled : (g.after (.setUp s)).isEnabled r.level = decide (s.level ≤ r.level) := by
      have hpos := s.level_pos
      rw [isEnabled, hthreshold, Bool.eq_iff_iff]
      simp only [Bool.and_eq_true, decide_eq_true_eq]
      omega
    simp only [write, if_pos hpackage, LogSetup.written, henabled, handlers_after_setUp]
    by_cases hlevel : s.level ≤ r.level
    · simp [hlevel, ← LogSetup.write_low_append_write_high hlevel]
    · simp [hlevel]
  · simp only [write, LogSetup.written, if_neg hpackage]

lemma session_after_setUp (g : Logging) (s : LogSetup) (events : List LogEvent) :
    (g.after (.setUp s)).session events
      = (underLast s events).flatMap fun e => e.1.written g.others e.2 := by
  induction events generalizing g s with
  | nil => rfl
  | cons e events ih =>
    cases e with
    | setUp s' =>
      have h := ih (g.after (.setUp s)) s'
      rw [others_after] at h
      exact h
    | record r =>
      rw [session, underLast, List.flatMap_cons, ← write_after_setUp, ← ih g s]
      rfl

/-! ### The texts of the streams -/

/-- The records that a stream is given, with their setups. -/
def givenTo (stream : ConsoleStream) (es : List (LogSetup × LogRecord)) :
    List (LogSetup × LogRecord) :=
  es.filter fun e => e.1.level ≤ e.2.level && e.1.streamOf e.2.level == stream

lemma textOf_written (stream : ConsoleStream) {es : List (LogSetup × LogRecord)}
    (h : ∀ e ∈ es, isInPackage e.2.logger = true) :
    Console.textOf (es.flatMap fun e => e.1.written [] e.2) stream
      = String.join ((givenTo stream es).map fun e => e.1.lineOf e.2 ++ "\n") := by
  rw [Console.textOf]
  refine congrArg String.join ?_
  induction es with
  | nil => rfl
  | cons e es ih =>
    obtain ⟨hpackage, hes⟩ := List.forall_mem_cons.mp h
    have hwritten : ((e.1.written [] e.2).filter (·.stream == stream)).map (·.text)
        = (givenTo stream [e]).map fun e => e.1.lineOf e.2 ++ "\n" := by
      by_cases hlevel : e.1.level ≤ e.2.level
      · by_cases hstream : e.1.streamOf e.2.level = stream
        · simp [LogSetup.written, givenTo, hpackage, hlevel, hstream, Console.line]
        · simp [LogSetup.written, givenTo, hpackage, hlevel, hstream, Console.line]
      · simp [LogSetup.written, givenTo, hpackage, hlevel]
    have hgiven : givenTo stream (e :: es) = givenTo stream [e] ++ givenTo stream es :=
      List.filter_append [e] es
    rw [List.flatMap_cons, List.filter_append, List.map_append, ih hes, hwritten, hgiven,
      List.map_append]

lemma record_mem_of_mem_underLast {s : LogSetup} {events : List LogEvent}
    {e : LogSetup × LogRecord} (h : e ∈ underLast s events) : .record e.2 ∈ events := by
  induction events generalizing s with
  | nil => cases h
  | cons event events ih =>
    cases event with
    | setUp s' => exact List.mem_cons_of_mem _ (ih h)
    | record r =>
      rcases List.mem_cons.mp h with rfl | h
      · exact List.mem_cons_self ..
      · exact List.mem_cons_of_mem _ (ih h)

/-- After every setup two handlers are installed, and those of others are the ones from before. From
the first setup on, what is written at events is what the last setup before each record wants
written for it, in the order of the records: nothing below its level, and otherwise, behind what
handlers of others write, one line, on the error stream if the level of the record is at least the
border and at least that of debugging, on the output otherwise. So without handlers of others, each
of the streams has the lines of the records that belong to it, in order, and no others. -/
theorem records_reach_one_stream (g : Logging) (first : LogSetup) (events : List LogEvent) :
    (∀ s : LogSetup, ((g.afterAll (events ++ [.setUp s])).handlers.filter (·.installed)).length = 2
      ∧ (g.afterAll (events ++ [.setUp s])).others = g.others)
    ∧ (g.after (.setUp first)).session events
      = (underLast first events).flatMap (fun e => e.1.written g.others e.2)
    ∧ (g.others = [] → (∀ r, .record r ∈ events → isInPackage r.logger = true) → ∀ stream,
      Console.textOf ((g.after (.setUp first)).session events) stream
        = String.join ((givenTo stream (underLast first events)).map fun e =>
          e.1.lineOf e.2 ++ "\n")) := by
  refine ⟨fun s => ⟨?_, others_afterAll g _⟩, session_after_setUp g first events,
    fun hothers hpackage stream => ?_⟩
  · have hafter : g.afterAll (events ++ [.setUp s]) = (g.afterAll events).after (.setUp s) := by
      rw [afterAll, List.foldl_append]
      rfl
    rw [hafter, installed_after_setUp]
    rfl
  · rw [session_after_setUp, hothers]
    exact textOf_written stream fun e he => hpackage e.2 (record_mem_of_mem_underLast he)

/-- A setup that lets through everything from debugging on. -/
def talkative : LogSetup := { level := 10, border := 30, level_pos := by decide }

/-- A setup whose level has no name and whose border is below the level of debugging. -/
def lopsided : LogSetup := { level := 25, border := 5, level_pos := by decide }

/-- Records just below and at the borders, and a setup in between. -/
def changingEvents : List LogEvent :=
  [.record ⟨"schema_lint.walk", 29, "a"⟩, .record ⟨"schema_lint.load", 30, "b"⟩, .setUp lopsided,
    .record ⟨"schema_lint.walk", 24, "c"⟩, .record ⟨"schema_lint", 25, "d"⟩]

theorem records_reach_one_stream_changing :
    (∀ r, .record r ∈ changingEvents → isInPackage r.logger = true)
    ∧ Console.textOf (((configure {} 40 40).after (.setUp talkative)).session changingEvents) .out
      = "schema_lint.walk - Level 29 - a\n"
    ∧ Console.textOf (((configure {} 40 40).after (.setUp talkative)).session changingEvents) .err
      = "schema_lint.load - WARNING - b\nschema_lint - Level 25 - d\n" := by
  have hpackage : ∀ r, .record r ∈ changingEvents → isInPackage r.logger = true := by
    intro r hr
    simp only [changingEvents, List.mem_cons, List.not_mem_nil, or_false, LogEvent.record.injEq,
      reduceCtorEq, false_or] at hr
    rcases hr with rfl | rfl | rfl | rfl <;> decide +kernel
  obtain ⟨-, -, htexts⟩ :=
    records_reach_one_stream (configure {} 40 40) talkative changingEvents
  have hout : givenTo .out (underLast talkative changingEvents)
      = [(talkative, ⟨"schema_lint.walk", 29, "a"⟩)] := rfl
  have herr : givenTo .err (underLast talkative changingEvents)
      = [(talkative, ⟨"schema_lint.load", 30, "b"⟩), (lopsided, ⟨"schema_lint", 25, "d"⟩)] := rfl
  refine ⟨hpackage, ?_, ?_⟩
  · rw [htexts rfl hpackage, hout, List.map_singleton, LogSetup.lineOf_standard rfl]
    decide +kernel
  · rw [htexts rfl hpackage, herr, List.map_cons, List.map_singleton,
      LogSetup.lineOf_standard rfl, LogSetup.lineOf_standard rfl]
    decide +kernel

end Logging

end ApiLint
