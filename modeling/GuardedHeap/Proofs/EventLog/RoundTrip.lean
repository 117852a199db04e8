import GuardedHeap.EventLog.Basic
import GuardedHeap.Proofs.Json.RoundTrip
import GuardedHeap.Proofs.Text.Utf8
import Mathlib.Data.List.Forall2

/-! # What is read from an event log

    The members of a record are read one after the other; a part that is
    absent is not written and leaves the reader as it is (`Reads.member`,
    `Reads.optional`), so a line is read as its entry (`Entry.parse?_line`).
    Nothing in a line ends it early, so that what `emit` appends, step by
    step, is one more line and one more entry (`reads_emitted`). -/

namespace GuardedHeap.EventLog

open Json (Spelling Spells SpellsFields units intNumeral Printable)

namespace Entry

/-- An entry as programs hold it: the numbers fit their types, and the details nest so little
    that the record around them can be read. -/
structure Loggable (e : Entry) : Prop where
  tid : ∀ n ∈ e.tid, n < Word.halfLimit
  size : ∀ n ∈ e.size, n < Word.limit
  details : ∀ d ∈ e.details, d.Plain detailsDepth

/-- Details, unless they are `null`. -/
def nonNull : Json → Option Json
  | .null => none
  | d => some d

/-- The entry, whose details are absent if they are `null`. -/
def withoutNull (e : Entry) : Entry :=
  { e with details := e.details.bind nonNull }

/-! ## Parts -/

theorem readString?_units (s : String) : readString? (.str (units s)) = some s :=
  Json.stringOfUnits?_units s

theorem readLevel?_units (l : Level) : readLevel? (.str (units l.name)) = some l := by
  rw [readLevel?, Json.stringOfUnits?_units, Option.bind_some, Level.ofName?_name]

theorem readNat?_intNumeral {limit n : Nat} (hlimit : limit ≤ Word.limit) (hn : n < limit) :
    readNat? limit (.number (intNumeral n)) = some n := by
  have hread : (intNumeral n).toJson? = some (.int n) := Json.toJson?_intNumeral (by omega) (by omega)
  rw [readNat?, hread]
  dsimp only
  rw [if_pos ⟨by omega, by omega⟩, Int.toNat_natCast]

/-- Details are spelled as something that is read as the details, or as nothing if they are `null`. -/
theorem exists_details {d : Json} (h : d.Plain detailsDepth) :
    ∃ x, Spells d.chars x ∧ readOptional? (·.toJson? detailsDepth) x = some (nonNull d) := by
  -- `null` is spelled as what stands for an absent part, and nothing else is.
  by_cases hnull : d = .null
  · subst hnull
    exact ⟨.null, Json.spells_null, rfl⟩
  · obtain ⟨x, hspells, hread⟩ := h.exists_spelling
    have hx : x ≠ .null := by
      rintro rfl
      rw [Spelling.toJson?] at hread
      exact hnull (Option.some.inj hread).symm
    have hsome : nonNull d = some d := by
      rw [nonNull]
      exact hnull
    refine ⟨x, hspells, ?_⟩
    rw [readOptional?, hread, hsome, Option.map_some]
    exact hx

/-! ## Members -/

theorem Parts.addAll_append (p : Parts) (gs more : List (List Nat × Spelling)) :
    p.addAll (gs ++ more) = (p.addAll gs).bind (·.addAll more) := by
  induction gs generalizing p with
  | nil => rfl
  | cons g gs ih =>
      rw [List.cons_append, Parts.addAll, Parts.addAll]
      cases Json.stringOfUnits? g.1 with
      | none => rfl
      | some key =>
          dsimp only
          cases p.add key g.2 with
          | none => rfl
          | some q => exact ih q

/-- From the text of the members, the reader that has the parts `p` gets to the parts `q`. -/
def Reads (fs : List (String × Json)) (p q : Parts) : Prop :=
  ∃ gs, SpellsFields fs gs ∧ p.addAll gs = some q

namespace Reads

variable {fs more : List (String × Json)} {p q r : Parts}

theorem append (h : Reads fs p q) (hmore : Reads more q r) : Reads (fs ++ more) p r := by
  obtain ⟨gs, hgs, hq⟩ := h
  obtain ⟨gs', hgs', hr⟩ := hmore
  refine ⟨gs ++ gs', List.rel_append hgs hgs', ?_⟩
  rw [Parts.addAll_append, hq]
  exact hr

variable {α γ : Type} {key : String} {read : Spelling → Option γ}

/-- A member that is read as a part. -/
theorem member {j : Json} {v : γ} (set : γ → Parts) (hadd : ∀ x, p.add key x = (read x).map set)
    (hread : ∃ x, Spells j.chars x ∧ read x = some v) : Reads [(key, j)] p (set v) := by
  obtain ⟨x, hx, hread⟩ := hread
  refine ⟨[(units key, x)], .cons ⟨rfl, hx⟩ .nil, ?_⟩
  rw [Parts.addAll, Json.stringOfUnits?_units]
  dsimp only
  rw [hadd, hread]
  rfl

/-- A member that is not written if its part is absent. -/
theorem optional {part : Option α} {toJson : α → Json} {value : α → γ} (set : Option γ → Parts)
    (hnone : set none = p) (hadd : ∀ x, p.add key x = (read x).map fun v => set (some v))
    (hread : ∀ a ∈ part, ∃ x, Spells (toJson a).chars x ∧ read x = some (value a)) :
    Reads (part.map fun a => (key, toJson a)).toList p (set (part.map value)) := by
  cases part with
  | none => exact ⟨[], .nil, congrArg some hnone.symm⟩
  | some a => exact member (fun v => set (some v)) hadd (hread a rfl)

end Reads

/-- The parts that every entry has. -/
def required (e : Entry) : Parts :=
  { timestamp := some e.timestamp, level := some e.level, event := some e.event }

/-- The members of a record are read as its parts: each one by a reader that has those before it. -/
theorem reads_fields {e : Entry} (h : e.Loggable) : Reads e.fields {} { e.required with
    tid := e.tid.map some, addr := e.addr.map some, size := e.size.map some, details := e.details.map nonNull } := by
  have hstring : ∀ s, ∃ x, Spells (Json.chars (.str s)) x ∧ readString? x = some s := fun s =>
    ⟨_, Json.spells_str s, readString?_units s⟩
  have hnat : ∀ {limit n}, limit ≤ Word.limit → n < limit →
      ∃ x, Spells (Json.nat n).chars x ∧ readOptional? (readNat? limit) x = some (some n) := fun hlimit hn =>
    ⟨_, Json.spells_int _, congrArg (Option.map some) (readNat?_intNumeral hlimit hn)⟩
  have htimestamp : Reads [("timestamp", .str e.timestamp)] {} { timestamp := some e.timestamp } :=
    .member (fun v => { timestamp := some v }) (fun _ => rfl) (hstring e.timestamp)
  have hlevel : Reads [("level", .str e.level.name)] { timestamp := some e.timestamp }
      { timestamp := some e.timestamp, level := some e.level } :=
    .member (fun v => { timestamp := some e.timestamp, level := some v }) (fun _ => rfl)
      ⟨_, Json.spells_str _, readLevel?_units e.level⟩
  have hevent : Reads [("event", .str e.event)] { timestamp := some e.timestamp, level := some e.level } e.required :=
    .member (fun v => { e.required with event := some v }) (fun _ => rfl) (hstring e.event)
  have htid : Reads (e.tid.map fun n => ("tid", Json.nat n)).toList e.required
      { e.required with tid := e.tid.map some } :=
    .optional (fun v => { e.required with tid := v }) rfl (fun _ => rfl) fun n hn => hnat (by decide) (h.tid n hn)
  have haddr : Reads (e.addr.map fun s => ("addr", Json.str s)).toList { e.required with tid := e.tid.map some }
      { e.required with tid := e.tid.map some, addr := e.addr.map some } :=
    .optional (fun v => { e.required with tid := e.tid.map some, addr := v }) rfl (fun _ => rfl) fun s _ =>
      ⟨_, Json.spells_str s, congrArg (Option.map some) (readString?_units s)⟩
  have hsize : Reads (e.size.map fun n => ("size", Json.nat n)).toList
      { e.required with tid := e.tid.map some, addr := e.addr.map some }
      { e.required with tid := e.tid.map some, addr := e.addr.map some, size := e.size.map some } :=
    .optional (fun v => { e.required with tid := e.tid.map some, addr := e.addr.map some, size := v }) rfl
      (fun _ => rfl) fun n hn => hnat (Nat.le_refl _) (h.size n hn)
  have hdetails : Reads (e.details.map fun d => ("details", d)).toList
      { e.required with tid := e.tid.map some, addr := e.addr.map some, size := e.size.map some }
      { e.required with
        tid := e.tid.map some, addr := e.addr.map some, size := e.size.map some, details := e.details.map nonNull } :=
    .optional (fun v => { e.required with
      tid := e.tid.map some, addr := e.addr.map some, size := e.size.map some, details := v }) rfl
      (fun _ => rfl) fun d hd => exists_details (h.details d hd)
  exact (((((htimestamp.append hlevel).append hevent).append htid).append haddr).append hsize).append hdetails

/-- A line is read as its entry. -/
theorem parse?_line {e : Entry} (h : e.Loggable) : parse? e.line = some e.withoutNull := by
  obtain ⟨gs, hspells, hread⟩ := reads_fields h
  have hjoin : ∀ {α : Type} (part : Option α), (part.map some).join = part := fun part => by cases part <;> rfl
  have hdetails : (e.details.map nonNull).join = e.details.bind nonNull := by cases e.details <;> rfl
  rw [parse?, line, Json.print, String.toList_ofList, Json.ofText?_of_spells (Json.spells_obj hspells)]
  dsimp only
  rw [hread]
  change some { e with
    tid := (e.tid.map some).join, addr := (e.addr.map some).join, size := (e.size.map some).join,
    details := (e.details.map nonNull).join } = _
  rw [hjoin, hjoin, hjoin, hdetails]
  rfl

/-- Every member of a record is a plain value. -/
theorem Loggable.plain {e : Entry} (h : e.Loggable) : ∀ f ∈ e.fields, f.2.Plain detailsDepth := by
  have hnat : ∀ {n : Nat}, n < Word.limit → (Json.nat n).Plain detailsDepth := fun hn => .int (by omega) (by omega)
  have hoptional : ∀ {α : Type} {part : Option α} {toField : α → String × Json},
      (∀ a ∈ part, (toField a).2.Plain detailsDepth) →
        ∀ f ∈ (part.map toField).toList, f.2.Plain detailsDepth := by
    rintro α (_ | a) toField ha f hf
    · exact nomatch hf
    · rw [List.mem_singleton.mp hf]
      exact ha a rfl
  simp only [fields, List.forall_mem_append]
  refine ⟨⟨⟨⟨?_, hoptional fun n hn => ?_⟩, hoptional fun s _ => .str s⟩, hoptional fun n hn => ?_⟩,
    hoptional fun d hd => h.details d hd⟩
  · exact List.forall_mem_cons.mpr ⟨.str _, List.forall_mem_cons.mpr ⟨.str _,
      List.forall_mem_singleton.mpr (.str _)⟩⟩
  · exact hnat (Nat.lt_trans (h.tid n hn) (by decide))
  · exact hnat (h.size n hn)

/-- A line has no control characters. -/
theorem printable_line {e : Entry} (h : e.Loggable) : Printable e.line.toList := by
  rw [line, Json.print, String.toList_ofList]
  exact Json.printable_obj fun f hf => (h.plain f hf).printable

end Entry

/-! ## Logs -/

theorem Buffer.bytes_write (b : Buffer) (bytes : List UInt8) : (b.write bytes).bytes = b.bytes ++ bytes := by
  rw [Buffer.bytes, Buffer.write, Array.toList_push, List.flatten_append, List.flatten_singleton]
  rfl

/-- The text that entries are written as. -/
def written (es : List Entry) : List Char :=
  es.flatMap fun e => e.line.toList ++ ['\n']

theorem emit_of_enabled {log : EventLog} {e : Entry} (h : log.enabled e.level = true) : log.emit e =
    { log with buffer := log.buffer.write ((e.line.toList ++ ['\n']).flatMap String.utf8EncodeChar) } := by
  rw [emit, if_pos h, Text.Utf8.encode, String.toList_append]
  rfl

theorem emit_of_not_enabled {log : EventLog} {e : Entry} (h : ¬ log.enabled e.level = true) : log.emit e = log :=
  if_neg h

/-- What is emitted is written behind what is there, if it reaches the threshold. -/
theorem bytes_foldl_emit (log : EventLog) (es : List Entry) : (es.foldl emit log).buffer.bytes =
    log.buffer.bytes ++ (written (es.filter (log.enabled ·.level))).flatMap String.utf8EncodeChar := by
  induction es generalizing log with
  | nil => exact (List.append_nil _).symm
  | cons e es ih =>
      rw [List.foldl_cons, ih, List.filter_cons]
      by_cases he : log.enabled e.level = true
      · rw [if_pos he, emit_of_enabled he, Buffer.bytes_write, List.append_assoc, ← List.flatMap_append]
        rfl
      · rw [if_neg he, emit_of_not_enabled he]

/-- The lines of a buffer are those of the entries that were written to it. -/
theorem lines_of_written {b : Buffer} {es : List Entry} (h : ∀ e ∈ es, e.Loggable)
    (hbytes : b.bytes = (written es).flatMap String.utf8EncodeChar) : b.lines = es.map Entry.line := by
  have hprintable : ∀ text ∈ es.map (·.line.toList), Printable text := fun text htext => by
    obtain ⟨e, he, rfl⟩ := List.mem_map.mp htext
    exact Entry.printable_line (h e he)
  have hnone : ∀ {text : List Char} {c : Char}, Printable text → c.toNat < 0x20 → c ∉ text := fun h hlt hmem =>
    Nat.not_le.mpr hlt (h _ hmem)
  -- A line feed would end a line too early, and a carriage return at its end would be lost.
  have hlines : Text.Utf8.lines (written es) = es.map (·.line.toList) := by
    have hsplit := Text.Utf8.lines_flatMap (fun text htext => hnone (hprintable text htext) (by decide))
      fun text htext hlast => hnone (hprintable text htext) (by decide) (List.mem_of_getLast? hlast)
    rwa [List.flatMap_map] at hsplit
  rw [Buffer.lines, hbytes, Text.Utf8.decode_encode, hlines, List.map_map]
  exact List.map_congr_left fun e _ => String.ofList_toList

/-- The entries that are read from the lines of entries are those. -/
theorem entries_of_lines {b : Buffer} {es : List Entry} (h : ∀ e ∈ es, e.Loggable)
    (hlines : b.lines = es.map Entry.line) : b.entries = es.map Entry.withoutNull := by
  have hparse : ∀ e ∈ es, (Entry.parse? ∘ Entry.line) e = (some ∘ Entry.withoutNull) e := fun e he => by
    rw [Function.comp_apply, Function.comp_apply, Entry.parse?_line (h e he)]
  rw [Buffer.entries, hlines, List.filterMap_map, List.filterMap_congr hparse, List.filterMap_eq_map]

/-- From a log that entries were emitted into, each one that reaches the threshold is read back, in order: as its line
    and as itself, but for details that are `null`. -/
theorem reads_emitted (threshold : Level) {es : List Entry} (h : ∀ e ∈ es, e.Loggable) :
    let buffer := (es.foldl emit { threshold }).buffer
    let kept := es.filter fun e => threshold.rank ≤ e.level.rank
    buffer.lines = kept.map Entry.line
      ∧ buffer.entries = kept.map Entry.withoutNull
      ∧ ∀ event, buffer.events event = (kept.filter (·.event == event)).map Entry.withoutNull := by
  intro buffer kept
  have hkept : ∀ e ∈ kept, e.Loggable := fun e he => h e (List.mem_of_mem_filter he)
  have hlines : buffer.lines = kept.map Entry.line := lines_of_written hkept (bytes_foldl_emit _ es)
  have hentries := entries_of_lines hkept hlines
  refine ⟨hlines, hentries, fun event => ?_⟩
  rw [Buffer.events, hentries, List.filter_map]
  rfl

/-- One of three entries is below the threshold.  The others have to be escaped, and one has details that are `null`. -/
theorem reads_emitted_escaped :
    let details := Json.obj [("a\nb", .arr [.int (-Word.signLimit), .obj []]), ("b", .bool true)]
    let es : List Entry := [
      { timestamp := "2024-01-01T00:00:00Z", level := .debug, event := "free" },
      { timestamp := "\"\\", level := .error, event := "line\r\n\tbreak", addr := some "\x00\x1f\x7f",
        size := some Word.max, details := some .null },
      { timestamp := "", level := .info, event := "free", tid := some 7, details := some details }]
    let buffer := (es.foldl emit { threshold := .info }).buffer
    (∀ e ∈ es, e.Loggable)
      ∧ buffer.lines.length = 2
      ∧ buffer.entries = [
        { timestamp := "\"\\", level := .error, event := "line\r\n\tbreak", addr := some "\x00\x1f\x7f",
          size := some Word.max },
        { timestamp := "", level := .info, event := "free", tid := some 7, details := some details }]
      ∧ buffer.events "free" =
        [{ timestamp := "", level := .info, event := "free", tid := some 7, details := some details }] := by
  intro details es buffer
  have hdetails : details.Plain Entry.detailsDepth :=
    .obj (by decide) (List.forall_mem_cons.mpr ⟨.arr (List.forall_mem_cons.mpr ⟨.int (by decide) (by decide),
      List.forall_mem_singleton.mpr (.obj .nil nofun)⟩), List.forall_mem_singleton.mpr (.bool true)⟩)
  have hloggable : ∀ e ∈ es, e.Loggable :=
    List.forall_mem_cons.mpr ⟨⟨nofun, nofun, nofun⟩, List.forall_mem_cons.mpr
      ⟨⟨nofun, fun n hn => Option.some.inj hn ▸ by decide, fun d hd => Option.some.inj hd ▸ .null⟩,
        List.forall_mem_singleton.mpr
          ⟨fun n hn => Option.some.inj hn ▸ by decide, nofun, fun d hd => Option.some.inj hd ▸ hdetails⟩⟩⟩
  obtain ⟨hlines, hentries, hevents⟩ := reads_emitted .info hloggable
  exact ⟨hloggable, congrArg List.length hlines, hentries, hevents "free"⟩

end GuardedHeap.EventLog
