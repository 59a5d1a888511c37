import AuditLog.Api.Server
import AuditLog.Python.LoadsDumps

/-!
# The log as JSON lines (`logging_config.py`)

The handler of the service's logger writes each record as one line of JSON. Names, paths
and tracebacks come from requests, so somebody may try to break a line, to add one, or to
overwrite a member. None of this works: what has been written so far, wherever it is cut,
falls into the lines of the events in one way only, and each line is read back as the
members of its event, sanitized and otherwise unchanged.
-/

namespace AuditLog

open Decoding

/-! ## Lines -/

section Lines

variable (lower : PyText → PyText) (formatter : JSONLogFormatter)

/-- What the formatter makes of the record of the line. -/
def Line.text (line : Line) : List Char :=
  formatter.format lower (logSecurityEvent line.created line.correlationId line.event)

/-- What the handler has written when these lines are logged. -/
def stdout (lines : List Line) : List Char := terminated '\n' (lines.map (Line.text lower formatter))

end Lines

/-- What the formatter writes of every record. -/
def Line.envelope (line : Line) : List (PyText × PyValue) :=
  [(pyText "timestamp", .str line.created.isoformat.codePoints),
    (pyText "level", .str (pyText line.event.level.levelname)),
    (pyText "logger", .str (pyText LOGGER_NAME)), (pyText "event", .str (pyText line.event.name)),
    (pyText "correlationId", optionalField line.correlationId)]

/-- The members of a line: the envelope, the fields of the event and the traceback. -/
def Line.members (line : Line) : List (PyText × PyValue) :=
  line.envelope ++ line.event.fields ++
    (line.event.excInfo.map fun text => (pyText "exception", .str text)).toList

/-! ## Members -/

section Members

variable (line : Line)

theorem Line.envelopeKeys_eq : envelopeKeys = Dict.keys line.envelope ++ [pyText "exception"] := rfl

theorem SecurityEvent.nodup_keys_fields (event : SecurityEvent) : (Dict.keys event.fields).Nodup := by
  cases event <;> simp only [SecurityEvent.fields, Dict.keys, List.map_cons, List.map_nil] <;>
    decide +kernel

/-- No field has a key that the formatter writes on its own. -/
theorem SecurityEvent.keys_fields_ne (event : SecurityEvent) :
    ∀ k ∈ Dict.keys event.fields, k ∉ envelopeKeys ∧ k ≠ pyText "correlation_id" := by
  have hdistinct : ∀ k ∈ fieldKeys, k ∉ envelopeKeys ∧ k ≠ pyText "correlation_id" := by
    decide +kernel
  exact fun k hk => hdistinct k (event.keys_fields k hk)

/-- So `**extra` overwrites nothing. -/
theorem Line.logPayload_eq :
    logPayload (logSecurityEvent line.created line.correlationId line.event) = line.members := by
  let r := logSecurityEvent line.created line.correlationId line.event
  have hkeys := line.event.keys_fields_ne
  have hevent : pyText "event" ∈ envelopeKeys := by decide +kernel
  have hne : pyText "event" ≠ pyText "correlation_id" := by decide +kernel
  -- What the formatter pops comes first and occurs once.
  have hname : Dict.get r.extra (pyText "event") = some (.str (pyText line.event.name)) := if_pos rfl
  have hid : Dict.get r.extra (pyText "correlation_id") = some (optionalField line.correlationId) :=
    (if_neg hne).trans (if_pos rfl)
  have hextra : r.extra.filter
      (fun e => decide (e.1 ≠ pyText "event" ∧ e.1 ≠ pyText "correlation_id")) =
        line.event.fields := by
    refine (List.filter_cons_of_neg (by simp)).trans ((List.filter_cons_of_neg (by simp)).trans ?_)
    refine List.filter_eq_self.mpr fun e he => decide_eq_true ?_
    obtain ⟨henvelope, hid⟩ := hkeys e.1 (List.mem_map_of_mem he)
    exact ⟨fun heq => henvelope (heq ▸ hevent), hid⟩
  have hupdate : Dict.update line.envelope line.event.fields = line.envelope ++ line.event.fields := by
    refine Dict.update_of_notMem line.event.nodup_keys_fields fun k hk hmem => (hkeys k hk).1 ?_
    rw [line.envelopeKeys_eq]
    exact List.mem_append_left _ hmem
  have hexc : r.exception = line.event.excInfo := rfl
  show logPayload r = line.members
  unfold logPayload Line.members
  rw [hname, hid, hextra, hexc]
  cases line.event.excInfo with
  | none => exact hupdate.trans (List.append_nil _).symm
  | some text =>
    refine (congrArg (fun d => Dict.set d _ _) hupdate).trans (Dict.set_of_notMem (fun hmem => ?_) _)
    rw [Dict.keys, List.map_append, List.mem_append] at hmem
    rcases hmem with henvelope | hfield
    · have hnew : ∀ k ∈ Dict.keys line.envelope, k ≠ pyText "exception" := by
        simp only [Line.envelope, Dict.keys, List.map_cons, List.map_nil]
        decide +kernel
      exact hnew _ henvelope rfl
    · exact (hkeys _ hfield).1 (by decide +kernel)

/-- A dict has every key once. -/
theorem nodup_keys_logPayload (r : LogRecord) : (Dict.keys (logPayload r)).Nodup := by
  have hupdated : ∀ (event correlationId : PyValue) (extra : List (PyText × PyValue)),
      (Dict.keys (Dict.update [(pyText "timestamp", .str r.timestamp),
        (pyText "level", .str r.levelname), (pyText "logger", .str r.name), (pyText "event", event),
        (pyText "correlationId", correlationId)] extra)).Nodup := by
    intro event correlationId extra
    apply Dict.nodup_keys_update
    simp only [Dict.keys, List.map_cons, List.map_nil]
    decide
  unfold logPayload
  split
  · exact hupdated ..
  · exact Dict.nodup_keys_set (hupdated ..) _ _

theorem Line.nodup_keys_members : (Dict.keys line.members).Nodup := by
  rw [← line.logPayload_eq]
  exact nodup_keys_logPayload _

/-- In the keys of a line there are no pairs to join. -/
theorem Line.joinPairs_key : ∀ k ∈ Dict.keys line.members, joinPairs k = k := by
  intro k hk
  rw [← line.logPayload_eq] at hk
  obtain ⟨e, he, rfl⟩ := List.mem_map.mp hk
  have hlogged : e.1 ∈ logKeys ∧ ScannedOnly id e.2 :=
    mem_logPayload line.created line.correlationId line.event e he
  exact joinPairs_logKeys e.1 hlogged.1

theorem floatsList_strs {α : Type} (f : α → PyText) (xs : List α) :
    PyValue.floatsList (xs.map fun x => .str (f x)) = [] := by
  induction xs with
  | nil => rfl
  | cons x xs ih => simp [PyValue.floatsList, PyValue.floats, ih]

/-- No float is logged. -/
theorem Line.floats_members : PyValue.floatsMembers line.members = [] := by
  have hoptional : ∀ s, (optionalField s).floats = [] := by rintro (_ | _) <;> rfl
  have hstrs : ∀ xs : List PyStr, PyValue.floatsList (xs.map strField) = [] :=
    floatsList_strs PyStr.codePoints
  rcases line with ⟨request, created, correlationId, event⟩
  cases event <;>
    simp [Line.members, Line.envelope, SecurityEvent.fields, SecurityEvent.excInfo, strField,
      PyValue.floatsMembers, PyValue.floats, hoptional, hstrs, floatsList_strs]

end Members

mutual
/-- The sanitizer writes no float of its own. -/
theorem floats_sanitizeValue (lower : PyText → PyText) (knownSecrets : List PyText) :
    ∀ v : PyValue, (sanitizeValue lower knownSecrets v).floats ⊆ v.floats
  | .str s => by
    rw [sanitizeValue]
    split <;> exact List.Subset.refl _
  | .dict kvs => by
    simp only [sanitizeValue, PyValue.floats]
    exact floats_sanitizeLogFields lower knownSecrets kvs
  | .list xs => by
    simp only [sanitizeValue, PyValue.floats]
    exact floats_sanitizeValues lower knownSecrets xs
  | .tuple xs => by
    simp only [sanitizeValue, PyValue.floats]
    exact floats_sanitizeValues lower knownSecrets xs
  | .null | .bool _ | .int _ | .float _ | .nonFinite _ | .other _ => List.Subset.refl _

theorem floats_sanitizeValues (lower : PyText → PyText) (knownSecrets : List PyText) :
    ∀ xs : List PyValue,
      PyValue.floatsList (sanitizeValues lower knownSecrets xs) ⊆ PyValue.floatsList xs
  | [] => List.Subset.refl _
  | x :: xs => by
    simp only [sanitizeValues, PyValue.floatsList]
    exact List.append_subset.mpr
      ⟨List.subset_append_of_subset_left _ (floats_sanitizeValue lower knownSecrets x),
        List.subset_append_of_subset_right _ (floats_sanitizeValues lower knownSecrets xs)⟩

theorem floats_sanitizeLogFields (lower : PyText → PyText) (knownSecrets : List PyText) :
    ∀ kvs : List (PyText × PyValue),
      PyValue.floatsMembers (sanitizeLogFields lower knownSecrets kvs) ⊆ PyValue.floatsMembers kvs
  | [] => List.Subset.refl _
  | (key, value) :: kvs => by
    simp only [sanitizeLogFields, PyValue.floatsMembers]
    refine List.append_subset.mpr ⟨List.subset_append_of_subset_left _ ?_,
      List.subset_append_of_subset_right _ (floats_sanitizeLogFields lower knownSecrets kvs)⟩
    split
    · exact List.nil_subset _
    · exact floats_sanitizeValue lower knownSecrets value
end

/-! ## Reading back -/

namespace PyValue

theorem rereadMembers_eq (kvs : List (PyText × PyValue)) :
    rereadMembers kvs = kvs.map fun e => (joinPairs e.1, e.2.reread) := by
  induction kvs with
  | nil => rfl
  | cons e kvs ih => rw [rereadMembers, ih, List.map_cons]

end PyValue

variable {lower : PyText → PyText} {formatter : JSONLogFormatter} {float : FloatReader}

/-- A line is read as the members of its event. -/
theorem Line.loads_text_iff (line : Line) (v : PyValue) :
    Loads float (line.text lower formatter) v ↔
      v = .dict (line.members.map fun e =>
        (e.1, (sanitizeMember lower formatter.knownSecrets e.1 e.2).reread)) := by
  have hsanitized : formatter.sanitized lower
      (logSecurityEvent line.created line.correlationId line.event) =
        .dict (sanitizeLogFields lower formatter.knownSecrets line.members) := by
    rw [JSONLogFormatter.sanitized, line.logPayload_eq]
  have hfloats : PyValue.floatsMembers
      (sanitizeLogFields lower formatter.knownSecrets line.members) = [] := by
    refine List.subset_nil.mp (List.Subset.trans (floats_sanitizeLogFields _ _ _) ?_)
    rw [line.floats_members]
    exact List.Subset.refl _
  have hmembers : PyValue.rereadMembers (sanitizeLogFields lower formatter.knownSecrets line.members) =
      line.members.map fun e =>
        (e.1, (sanitizeMember lower formatter.knownSecrets e.1 e.2).reread) := by
    rw [PyValue.rereadMembers_eq, sanitizeLogFields_eq, List.map_map]
    refine List.map_congr_left fun e he => ?_
    simp only [Function.comp_apply]
    rw [line.joinPairs_key e.1 (List.mem_map_of_mem he)]
  have hnodup : (Dict.keys (line.members.map fun e =>
      (e.1, (sanitizeMember lower formatter.knownSecrets e.1 e.2).reread))).Nodup := by
    simpa [Dict.keys, Function.comp_def] using line.nodup_keys_members
  unfold Line.text JSONLogFormatter.format
  rw [hsanitized, PyValue.loads_dumps_iff (by simp [PyValue.floats, hfloats]), PyValue.reread, hmembers,
    Dict.update_of_notMem hnodup (by simp), List.nil_append]

/-- A line is printable. -/
theorem Line.printable_text (line : Line) : ∀ c ∈ line.text lower formatter, Printable c :=
  PyValue.printable_dumps _

/-- **The log is read back.** What the service has written, cut anywhere, begins with the lines
of the first events and with no others, and each line is JSON text of one value: the members
of its event, which have distinct keys, with nothing changed but what the sanitizer replaces. -/
theorem stdout_reads_back (lower : PyText → PyText) (formatter : JSONLogFormatter)
    (float : FloatReader) (lines : List Line) :
    (∀ texts, (∀ text ∈ texts, '\n' ∉ text) → (terminated '\n' texts <+: stdout lower formatter lines ↔
      texts <+: lines.map (Line.text lower formatter))) ∧
    ∀ line ∈ lines, (∀ c ∈ line.text lower formatter, Printable c) ∧
      (Dict.keys line.members).Nodup ∧
      ∀ v, Loads float (line.text lower formatter) v ↔
        v = .dict (line.members.map fun e =>
          (e.1, (sanitizeMember lower formatter.knownSecrets e.1 e.2).reread)) := by
  refine ⟨fun texts htexts => terminated_prefix_iff htexts ?_, fun line _ =>
    ⟨line.printable_text, line.nodup_keys_members, line.loads_text_iff⟩⟩
  intro text htext hbreak
  obtain ⟨line, -, rfl⟩ := List.mem_map.mp htext
  exact absurd (line.printable_text _ hbreak) (by decide)

end AuditLog
