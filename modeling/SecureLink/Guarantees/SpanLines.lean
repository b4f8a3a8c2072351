import SecureLink.Library.Json
import SecureLink.Source.Trace.SpanExporter

/-!
# Spans on lines

The literal of a string is read back by a JSON reader, whatever stands behind it. The line of a
span is the text of a JSON value with the span's own strings as its tokens; it holds no control
character, so the exporter's lines are the texts it was given.
-/
namespace SecureLink.Guarantees.SpanLines
open Library.BigEndian Library.Numerals Library.Runs Library.Formatted Library.Formatted.OStream
open Library.Json Library.Substrings Source.Trace

/-! ## Literals -/

/-- What is written for a byte of a string. -/
def escapeText (c : UInt8) : Bytes := (escapeChar .new c).text

def literal (s : Bytes) : Bytes := quote :: (s.flatMap escapeText ++ [quote])

theorem ready_escapeChar {os : OStream} {t : Bytes} (ready : Ready os t) (c : UInt8) :
    Ready (escapeChar os c) (t ++ escapeText c) := by
  rw [escapeText, escapeChar, escapeChar]
  split_ifs with _ _ _ _ _ control
  · exact ready.put _
  · exact ready.put _
  · exact ready.put _
  · exact ready.put _
  · exact ready.put _
  · refine ⟨rfl, rfl, ?_⟩
    have front := (ready.put (ascii "\\u")).written
    exact (congrArg (· ++ _) front).trans (List.append_assoc _ _ _)
  · exact ready.put [c]

theorem ready_escapeJson {os : OStream} {t : Bytes} (ready : Ready os t) (s : Bytes) :
    Ready (escapeJson os s) (t ++ literal s) := by
  have body : ∀ {os : OStream} {t : Bytes}, Ready os t →
      Ready (s.foldl escapeChar os) (t ++ s.flatMap escapeText) := by
    induction s with
    | nil =>
      intro os t ready
      rw [List.flatMap_nil, List.append_nil]
      exact ready
    | cons c s ih =>
      intro os t ready
      rw [List.flatMap_cons, ← List.append_assoc]
      exact ih (ready_escapeChar ready c)
  have whole := (body (ready.put [quote])).put [quote]
  rw [List.append_assoc, List.append_assoc] at whole
  exact whole

theorem escapeText_spells (c : UInt8) :
    spells (escapeText c) c = true ∧ ∀ x ∈ escapeText c, 0x20 ≤ x := by
  have all : ∀ c, (spells (escapeText c) c && (escapeText c).all fun x => 0x20 ≤ x) = true :=
    forall_octet (by decide +kernel)
  obtain ⟨spelled, printable⟩ := Bool.and_eq_true_iff.mp (all c)
  exact ⟨spelled, fun x member => of_decide_eq_true (List.all_eq_true.mp printable x member)⟩

/-- The reader of strings gets the string back, and goes on behind its literal. -/
theorem readString_literal (s rest : Bytes) : readString (literal s ++ rest) = some (s, rest) := by
  have read := readString_written (fun c rest => frontChar_of_spells (escapeText_spells c).1 rest) s rest
  rw [literal, List.cons_append, List.append_assoc, List.singleton_append]
  exact read

example : literal (ascii "a\"\x01") = ascii "\"a\\\"\\u0001\"" := by decide +kernel

theorem literal_printable (s : Bytes) : ∀ x ∈ literal s, 0x20 ≤ x := by
  intro x member
  rw [literal, List.mem_cons, List.mem_append, List.mem_flatMap, List.mem_singleton] at member
  rcases member with rfl | ⟨c, _, inside⟩ | rfl
  · decide
  · exact (escapeText_spells c).2 x inside
  · decide

/-- A byte that is written as it is. -/
def plainByte (c : UInt8) : Bool := 0x20 ≤ c && c != quote && c != backslash

theorem literal_plain {s : Bytes} (plain : ∀ c ∈ s, plainByte c = true) : literal s = quote :: (s ++ [quote]) := by
  have all : ∀ c, plainByte c = true → escapeText c = [c] := forall_octet (by decide +kernel)
  have same : s.flatMap escapeText = s := by
    induction s with
    | nil => rfl
    | cons c s ih =>
      rw [List.forall_mem_cons] at plain
      rw [List.flatMap_cons, all c plain.1, ih plain.2, List.singleton_append]
  rw [literal, same]

/-! ## The tokens of a span -/

def strMember (key : String) (s : Bytes) : Bytes × List Token := (ascii key, [.str s])

def numMember (key : String) (z : Int) : Bytes × List Token := (ascii key, [.num z])

def attributeMember (a : SpanAttribute) : Bytes × List Token := (a.key, [.str a.value])

def attributesMember (attributes : List SpanAttribute) : List (Bytes × List Token) :=
  if attributes ≠ [] then [(ascii "attributes", object (attributes.map attributeMember))] else []

def eventTokens (e : SpanEvent) : List Token :=
  object (numMember "at_us" (timeUs e.at_) :: strMember "name" e.name :: attributesMember e.attributes)

def parentMember (id : SlSpanId) : List (Bytes × List Token) :=
  if !slSpanIdIsZero id then [strMember "parent_id" (bytesToHexLoop id.1)] else []

def descMember (desc : Bytes) : List (Bytes × List Token) :=
  if desc ≠ [] then [strMember "status_desc" desc] else []

def eventsMember (events : List SpanEvent) : List (Bytes × List Token) :=
  if events ≠ [] then [(ascii "events", array (events.map eventTokens))] else []

/-- The members in front of the duration. -/
def headMembers (span : Span) : List (Bytes × List Token) :=
  strMember "trace_id" (bytesToHexLoop span.ctx.traceId.1) ::
    strMember "span_id" (bytesToHexLoop span.ctx.spanId.1) ::
    (parentMember span.parent.spanId ++
      strMember "name" span.name ::
      strMember "kind" (slSpanKindName span.kind) ::
      strMember "status" (slSpanStatusName span.status) ::
      (descMember span.statusDesc ++
        [numMember "start_us" (timeUs span.start), numMember "end_us" (timeUs span.end_)]))

/-- The span as an object. -/
def spanTokens (span : Span) (now : Int) : List Token :=
  object (headMembers span ++ numMember "duration_us" (span.duration now) ::
    (attributesMember span.attrs ++ eventsMember span.events))

theorem value_attributes (attributes : List SpanAttribute) : ∀ m ∈ attributesMember attributes, Value m.2 := by
  intro m inside
  rw [attributesMember] at inside
  split at inside
  next =>
    obtain rfl := List.mem_singleton.mp inside
    apply Value.object
    intro m member
    obtain ⟨a, _, rfl⟩ := List.mem_map.mp member
    exact Value.str a.value
  next => cases inside

theorem value_event (e : SpanEvent) : Value (eventTokens e) := by
  apply Value.object
  rw [List.forall_mem_cons, List.forall_mem_cons]
  exact ⟨Value.num _, Value.str _, value_attributes e.attributes⟩

theorem value_optional {c : Prop} [Decidable c] {m : Bytes × List Token} (value : Value m.2) :
    ∀ x ∈ (if c then [m] else []), Value x.2 := by
  split
  next => exact List.forall_mem_singleton.mpr value
  next => exact List.forall_mem_nil _

theorem value_span (span : Span) (now : Int) : Value (spanTokens span now) := by
  have events : Value (array (span.events.map eventTokens)) := by
    apply Value.array
    intro item inside
    obtain ⟨e, _, rfl⟩ := List.mem_map.mp inside
    exact value_event e
  have parent : ∀ m ∈ parentMember span.parent.spanId, Value m.2 := value_optional (Value.str _)
  have desc : ∀ m ∈ descMember span.statusDesc, Value m.2 := value_optional (Value.str _)
  have later : ∀ m ∈ eventsMember span.events, Value m.2 := value_optional events
  apply Value.object
  rw [headMembers]
  simp only [List.forall_mem_append, List.forall_mem_cons]
  exact ⟨⟨Value.str _, Value.str _, parent, Value.str _, Value.str _, Value.str _, desc, Value.num _, Value.num _,
    List.forall_mem_nil _⟩, Value.num _, value_attributes span.attrs, later⟩

/-! ## The line of a span -/

theorem ready_commaLoop {α : Type} {item : OStream → α → OStream} {itemText : α → Bytes}
    (writes : ∀ {os t}, Ready os t → ∀ a, Ready (item os a) (t ++ itemText a)) {os : OStream} {t : Bytes}
    (ready : Ready os t) (items : List α) :
    Ready (commaLoop item true os items) (t ++ [Mark.comma.char].intercalate (items.map itemText)) := by
  have later : ∀ (items : List α) {os : OStream} {t : Bytes}, Ready os t →
      Ready (commaLoop item false os items) (t ++ (items.map itemText).flatMap (Mark.comma.char :: ·)) := by
    intro items
    induction items with
    | nil =>
      intro os t ready
      rw [List.map_nil, List.flatMap_nil, List.append_nil]
      exact ready
    | cons a items ih =>
      intro os t ready
      have here := ih (writes (ready.put [Mark.comma.char]) a)
      rw [List.append_assoc, List.append_assoc] at here
      exact here
  cases items with
  | nil =>
    rw [List.map_nil, List.intercalate_nil, List.append_nil]
    exact ready
  | cons a items =>
    rw [List.map_cons, intercalate_cons, ← List.append_assoc]
    exact later items (writes ready a)

theorem memberText_str (key : String) (s : Bytes) :
    memberText literal (strMember key s) = literal (ascii key) ++ Mark.colon.char :: literal s := by
  rw [memberText, strMember, text_str]

theorem memberText_num (key : String) (z : Int) :
    memberText literal (numMember key z) = literal (ascii key) ++ Mark.colon.char :: signedNumeral z := by
  rw [memberText, numMember, text_num]

theorem ready_attribute {os : OStream} {t : Bytes} (ready : Ready os t) (a : SpanAttribute) :
    Ready (attributeToJson os a) (t ++ memberText literal (attributeMember a)) := by
  have whole := ready_escapeJson ((ready_escapeJson ready a.key).put [colon]) a.value
  rw [List.append_assoc, List.append_assoc] at whole
  rw [memberText, attributeMember, text_str]
  exact whole

theorem ready_attributes {os : OStream} {t : Bytes} (ready : Ready os t) (attributes : List SpanAttribute) :
    Ready (attributesToJson os attributes)
      (t ++ (attributesMember attributes).flatMap fun m => Mark.comma.char :: memberText literal m) := by
  rw [attributesToJson, attributesMember]
  split
  next =>
    have label : ascii ",\"attributes\":\x7b" =
        Mark.comma.char :: (literal (ascii "attributes") ++ [Mark.colon.char, Mark.openBrace.char]) := by
      decide +kernel
    have whole :=
      (ready_commaLoop ready_attribute (ready.put (ascii ",\"attributes\":\x7b")) attributes).put [0x7D]
    rw [List.flatMap_singleton, memberText, text_object, List.map_map]
    rw [label] at whole
    simp only [List.append_assoc, List.cons_append, List.nil_append] at whole ⊢
    exact whole
  next =>
    rw [List.flatMap_nil, List.append_nil]
    exact ready

theorem ready_event {os : OStream} {t : Bytes} (ready : Ready os t) (e : SpanEvent) :
    Ready (eventToJson os e) (t ++ text literal (eventTokens e)) := by
  have label₁ : ascii "\x7b\"at_us\":" =
      Mark.openBrace.char :: (literal (ascii "at_us") ++ [Mark.colon.char]) := by
    decide +kernel
  have label₂ : ascii "\"name\":" = literal (ascii "name") ++ [Mark.colon.char] := by
    decide +kernel
  have first := ((ready.put (ascii "\x7b\"at_us\":")).putInt 64 (timeUs e.at_)).put [comma]
  have name := ready_escapeJson (first.put (ascii "\"name\":")) e.name
  have whole := (ready_attributes name e.attributes).put [0x7D]
  have shape : eventTokens e = object ([numMember "at_us" (timeUs e.at_)] ++
      strMember "name" e.name :: attributesMember e.attributes) := rfl
  rw [shape, text_object_middle, List.flatMap_singleton, memberText_num, memberText_str]
  rw [label₁, label₂] at whole
  simp only [List.append_assoc, List.cons_append, List.nil_append] at whole ⊢
  exact whole

theorem hexDigit_plain (n : UInt8) : plainByte (hexDigit (n &&& 0x0F)) = true := by
  revert n
  exact forall_octet (by decide +kernel)

theorem hex_plain (bytes : Bytes) : ∀ c ∈ bytesToHexLoop bytes, plainByte c = true := by
  induction bytes with
  | nil => exact List.forall_mem_nil _
  | cons b bytes ih =>
    rw [bytesToHexLoop, List.forall_mem_cons, List.forall_mem_cons]
    exact ⟨hexDigit_plain (b >>> 4), hexDigit_plain b, ih⟩

theorem kind_plain (kind : SlSpanKind) : ∀ c ∈ slSpanKindName kind, plainByte c = true := by
  apply List.all_eq_true.mp
  cases kind <;> rfl

theorem status_plain (status : SlSpanStatus) : ∀ c ∈ slSpanStatusName status, plainByte c = true := by
  apply List.all_eq_true.mp
  cases status <;> rfl

/-- The buffer of the identifier is large enough. -/
theorem hex_of_id {n : Nat} (id : FixedBytes n) : (bytesToHex id.1 (2 * n + 1)).getD [] = bytesToHexLoop id.1 := by
  have room : ¬ 2 * n + 1 < id.1.length * 2 + 1 := by
    rw [id.2]
    omega
  rw [bytesToHex, if_neg room]
  rfl

/-- The members of an object so far, each with a comma behind it. -/
def Members (os : OStream) (members : List (Bytes × List Token)) : Prop :=
  Ready os (Mark.openBrace.char :: members.flatMap fun m => memberText literal m ++ [Mark.comma.char])

section Members
variable {os : OStream} {members : List (Bytes × List Token)} (so_far : Members os members) {label : Bytes} {key : String}
include so_far

theorem Members.add {os' : OStream} {m : Bytes × List Token}
    (writes : ∀ {t}, Ready os t → Ready os' (t ++ (memberText literal m ++ [Mark.comma.char]))) :
    Members os' (members ++ [m]) := by
  rw [Members, List.flatMap_append, List.flatMap_singleton]
  exact writes so_far

theorem Members.optional (c : Prop) [Decidable c] {os' : OStream} {m : Bytes × List Token}
    (more : Members os' (members ++ [m])) :
    Members (if c then os' else os) (members ++ if c then [m] else []) := by
  split
  next => exact more
  next =>
    rw [List.append_nil]
    exact so_far

/-- A string that needs no escapes. -/
theorem Members.plain {s : Bytes} (spelled : label = literal (ascii key) ++ [Mark.colon.char, quote])
    (plain : ∀ c ∈ s, plainByte c = true) :
    Members (os.puts [label, s, ascii "\","]) (members ++ [strMember key s]) := by
  have behind : ascii "\"," = [quote, Mark.comma.char] := by decide
  apply so_far.add
  intro t ready
  have whole := ready.puts [label, s, ascii "\","]
  rw [spelled, behind] at whole ⊢
  rw [memberText_str, literal_plain plain]
  simp only [List.flatten_cons, List.flatten_nil, List.append_assoc, List.cons_append, List.nil_append] at whole ⊢
  exact whole

theorem Members.str (spelled : label = literal (ascii key) ++ [Mark.colon.char]) (s : Bytes) :
    Members ((escapeJson (os.put label) s).put [comma]) (members ++ [strMember key s]) := by
  apply so_far.add
  intro t ready
  have whole := (ready_escapeJson (ready.put label) s).put [comma]
  rw [spelled] at whole ⊢
  rw [memberText_str]
  simp only [List.append_assoc, List.cons_append, List.nil_append] at whole ⊢
  exact whole

theorem Members.num (spelled : label = literal (ascii key) ++ [Mark.colon.char]) (z : Int) :
    Members (((os.put label).putInt 64 z).put [comma]) (members ++ [numMember key z]) := by
  apply so_far.add
  intro t ready
  have whole := ((ready.put label).putInt 64 z).put [comma]
  rw [spelled] at whole ⊢
  rw [memberText_num]
  simp only [List.append_assoc, List.cons_append, List.nil_append] at whole ⊢
  exact whole

end Members

theorem ready_events {os : OStream} {t : Bytes} (ready : Ready os t) (events : List SpanEvent) :
    Ready (if events ≠ [] then (commaLoop eventToJson true (os.put (ascii ",\"events\":[")) events).put [0x5D] else os)
      (t ++ (eventsMember events).flatMap fun m => Mark.comma.char :: memberText literal m) := by
  rw [eventsMember]
  split
  next =>
    have label : ascii ",\"events\":[" =
        Mark.comma.char :: (literal (ascii "events") ++ [Mark.colon.char, Mark.openBracket.char]) := by
      decide +kernel
    have whole := (ready_commaLoop ready_event (ready.put (ascii ",\"events\":[")) events).put [0x5D]
    rw [List.flatMap_singleton, memberText, text_array, List.map_map]
    rw [label] at whole
    simp only [List.append_assoc, List.cons_append, List.nil_append] at whole ⊢
    exact whole
  next =>
    rw [List.flatMap_nil, List.append_nil]
    exact ready

theorem hex_first (id : SlSpanId) : (bytesToHexLoop id.1).getD 0 0 ≠ 0 := by
  obtain ⟨bytes, length⟩ := id
  obtain ⟨b, rest, rfl⟩ := List.exists_cons_of_length_eq_add_one (length : bytes.length = 7 + 1)
  intro zero
  have digit : hexDigit (b >>> 4 &&& 0x0F) = 0 := zero
  have plain := hexDigit_plain (b >>> 4)
  rw [digit] at plain
  exact absurd plain (by decide)

/-- The identifier of the parent is written unless it is zero. -/
theorem Members.parent {os : OStream} {members : List (Bytes × List Token)} (so_far : Members os members)
    (id : SlSpanId) :
    let psid := if !slSpanIdIsZero id then (slSpanIdToHex id (slSpanIdHexLen + 1)).getD [] else []
    Members (if psid.getD 0 0 ≠ 0 then os.puts [ascii "\"parent_id\":\"", psid, ascii "\","] else os)
      (members ++ parentMember id) := by
  intro psid
  rw [parentMember]
  cases zero : slSpanIdIsZero id with
  | true =>
    have empty : psid = [] := by
      simp only [psid, zero, Bool.not_true, Bool.false_eq_true, if_false]
    have absent : ¬ ([] : Bytes).getD 0 0 ≠ 0 := not_not_intro rfl
    rw [empty, if_neg absent]
    simp only [Bool.not_true, Bool.false_eq_true, if_false, List.append_nil]
    exact so_far
  | false =>
    have hex : psid = bytesToHexLoop id.1 := by
      simp only [psid, zero, Bool.not_false, if_true]
      exact hex_of_id id
    rw [hex, if_pos (hex_first id)]
    simp only [Bool.not_false, if_true]
    exact so_far.plain (by decide +kernel) (hex_plain id.1)

/-- The labels as they stand in the source. -/
theorem labels :
    (ascii "\"trace_id\":\"" = literal (ascii "trace_id") ++ [Mark.colon.char, quote] ∧
      ascii "\"span_id\":\"" = literal (ascii "span_id") ++ [Mark.colon.char, quote] ∧
      ascii "\"kind\":\"" = literal (ascii "kind") ++ [Mark.colon.char, quote] ∧
      ascii "\"status\":\"" = literal (ascii "status") ++ [Mark.colon.char, quote]) ∧
    (ascii "\"name\":" = literal (ascii "name") ++ [Mark.colon.char] ∧
      ascii "\"status_desc\":" = literal (ascii "status_desc") ++ [Mark.colon.char] ∧
      ascii "\"start_us\":" = literal (ascii "start_us") ++ [Mark.colon.char] ∧
      ascii "\"end_us\":" = literal (ascii "end_us") ++ [Mark.colon.char] ∧
      ascii "\"duration_us\":" = literal (ascii "duration_us") ++ [Mark.colon.char]) := by
  decide +kernel

/-- The line is the text of the span's tokens. -/
theorem spanToJson_eq_text (span : Span) (now : Int) :
    spanToJson span now = text literal (spanTokens span now) := by
  obtain ⟨⟨traceL, spanL, kindL, statusL⟩, nameL, descL, startL, endL, durationL⟩ := labels
  have tid : (slTraceIdToHex span.ctx.traceId (slTraceIdHexLen + 1)).getD [] =
      bytesToHexLoop span.ctx.traceId.1 := hex_of_id span.ctx.traceId
  have sid : (slSpanIdToHex span.ctx.spanId (slSpanIdHexLen + 1)).getD [] =
      bytesToHexLoop span.ctx.spanId.1 := hex_of_id span.ctx.spanId
  -- the members in front of the duration, in the order of the source
  have brace : Members (OStream.new.put [0x7B]) [] := ready_new.put [0x7B]
  have ids := ((brace.plain traceL (hex_plain span.ctx.traceId.1)).plain spanL
    (hex_plain span.ctx.spanId.1)).parent span.parent.spanId
  have status := ((ids.str nameL span.name).plain kindL (kind_plain span.kind)).plain statusL
    (status_plain span.status)
  have described := status.optional (span.statusDesc ≠ []) (status.str descL span.statusDesc)
  have head := (described.num startL (timeUs span.start)).num endL (timeUs span.end_)
  have duration := (Ready.put head (ascii "\"duration_us\":")).putInt 64 (span.duration now)
  have whole := (ready_events (ready_attributes duration span.attrs) span.events).put [0x7D]
  have line := whole.written
  rw [← tid, ← sid] at line
  refine line.trans ?_
  rw [spanTokens, text_object_middle, headMembers, memberText_num, durationL, tid, sid]
  simp only [List.append_assoc, List.cons_append, List.nil_append, List.flatMap_append]
  rfl

theorem write_printable (token : Token) : ∀ x ∈ write literal token, 0x20 ≤ x := by
  cases token with
  | mark m => cases m <;> exact List.forall_mem_singleton.mpr (by decide)
  | str s => exact literal_printable s
  | num z =>
    intro x member
    have all : ∀ x, numberChar x = true → 0x20 ≤ x := forall_octet (by decide +kernel)
    exact all x (numberChar_of_mem_signedNumeral z x member)

theorem spanToJson_printable (span : Span) (now : Int) : ∀ x ∈ spanToJson span now, 0x20 ≤ x := by
  intro x member
  rw [spanToJson_eq_text] at member
  obtain ⟨token, _, inside⟩ := List.mem_flatMap.mp member
  exact write_printable token x inside

theorem lex_spanToJson (span : Span) (now : Int) : lex (spanToJson span now) = some (spanTokens span now) := by
  rw [spanToJson_eq_text]
  exact lex_text readString_literal (value_span span now).numsApart

/-- The line of a span that has ended is final: no later call changes it, and it does not depend
on when it is written. -/
theorem spanToJson_of_ended {span : Span} (ended : span.ended = true) (calls : List Span.Call) (now now' : Int) :
    spanToJson (run Span.step span calls) now = spanToJson span now' := by
  have duration : span.duration now = span.duration now' := by
    rw [Span.duration, Span.duration, if_pos ended, if_pos ended]
  rw [Span.run_of_ended ended, spanToJson_eq_text, spanToJson_eq_text, spanTokens, spanTokens, duration]

/-! ## Names -/

/-- Behind the nine tokens of the brace and the identifiers. -/
theorem spanTokens_name (span : Span) (now : Int) :
    ∃ psid rest, (spanTokens span now).drop 9 =
      (if !slSpanIdIsZero span.parent.spanId then
        [.str (ascii "parent_id"), .mark .colon, .str psid, .mark .comma] else []) ++
        .str (ascii "name") :: .mark .colon :: .str span.name :: rest := by
  have shape : ∃ tail, spanTokens span now =
      object ((strMember "trace_id" (bytesToHexLoop span.ctx.traceId.1) ::
          strMember "span_id" (bytesToHexLoop span.ctx.spanId.1) :: parentMember span.parent.spanId) ++
        strMember "name" span.name :: tail) := by
    rw [spanTokens, headMembers]
    simp only [List.append_assoc, List.cons_append]
    exact ⟨_, rfl⟩
  obtain ⟨tail, shape⟩ := shape
  rw [shape, object_middle, parentMember]
  by_cases parent : (!slSpanIdIsZero span.parent.spanId) = true
  · simp only [if_pos parent]
    exact ⟨_, _, rfl⟩
  · simp only [if_neg parent]
    exact ⟨[], _, rfl⟩

/-- Different names are written differently, whatever else the spans hold. -/
theorem spanTokens_name_inj {span span' : Span} {now now' : Int}
    (same : spanTokens span now = spanTokens span' now') : span.name = span'.name := by
  obtain ⟨psid, rest, shape⟩ := spanTokens_name span now
  obtain ⟨psid', rest', shape'⟩ := spanTokens_name span' now'
  have keys : ascii "parent_id" ≠ ascii "name" := by decide
  rw [same, shape'] at shape
  split at shape
  · split at shape
    · simp only [List.cons_append, List.nil_append, List.cons.injEq, Token.str.injEq, true_and] at shape
      exact shape.2.1.symm
    · simp only [List.cons_append, List.nil_append, List.cons.injEq, Token.str.injEq] at shape
      exact absurd shape.1 keys
  · split at shape
    · simp only [List.cons_append, List.nil_append, List.cons.injEq, Token.str.injEq] at shape
      exact absurd shape.1.symm keys
    · simp only [List.nil_append, List.cons.injEq, Token.str.injEq, true_and] at shape
      exact shape.1.symm

/-! ## The exporter -/

theorem export_run (exports : List (Span × Int)) {os : OStream} {t : Bytes} (ready : Ready os t) :
    Ready (run exportSpan os exports) (t ++ exports.flatMap fun e => spanToJson e.1 e.2 ++ [newline]) := by
  induction exports generalizing os t with
  | nil =>
    rw [List.flatMap_nil, List.append_nil]
    exact ready
  | cons e exports ih =>
    have here := ih ((ready.put (spanToJson e.1 e.2)).put [newline])
    rw [List.append_assoc t] at here
    rw [List.flatMap_cons, ← List.append_assoc]
    exact here

theorem newline_notMem (span : Span) (now : Int) : newline ∉ spanToJson span now := by
  intro member
  exact absurd (spanToJson_printable span now newline member) (by decide)

/-- Literals are read back, and have no control character. The line of a span is the text of its
JSON object, and differs from that of every span with another name. What the exporter writes are
these lines. -/
theorem span_lines_exact :
    (∀ os written s, Ready os written →
      ∃ text, Ready (escapeJson os s) (written ++ text) ∧ (∀ x ∈ text, 0x20 ≤ x) ∧
        ∀ rest, readString (text ++ rest) = some (s, rest)) ∧
    (∀ span now, (∀ x ∈ spanToJson span now, 0x20 ≤ x) ∧
      lex (spanToJson span now) = some (spanTokens span now) ∧ Value (spanTokens span now)) ∧
    (∀ span span' now now', span.name ≠ span'.name → spanToJson span now ≠ spanToJson span' now') ∧
    ∀ exports : List (Span × Int), (run exportSpan .new exports).text.splitOn newline =
      exports.map (fun e => spanToJson e.1 e.2) ++ [[]] := by
  refine ⟨?_, ?_, ?_, ?_⟩
  · intro os written s ready
    exact ⟨literal s, ready_escapeJson ready s, literal_printable s, readString_literal s⟩
  · intro span now
    exact ⟨spanToJson_printable span now, lex_spanToJson span now, value_span span now⟩
  · intro span span' now now' names same
    have tokens := lex_spanToJson span now
    rw [same, lex_spanToJson span' now'] at tokens
    exact names (spanTokens_name_inj (Option.some.inj tokens)).symm
  · intro exports
    have whole : ∀ line ∈ exports.map fun e => spanToJson e.1 e.2, newline ∉ line := by
      intro line member
      obtain ⟨e, _, rfl⟩ := List.mem_map.mp member
      exact newline_notMem e.1 e.2
    rw [(export_run exports ready_new).written, List.nil_append, ← splitOn_terminated whole, List.flatMap_map]

end SecureLink.Guarantees.SpanLines
