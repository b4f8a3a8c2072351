import SecureLink.Library.Formatted
import SecureLink.Source.Trace.Span

/-!
# Export of spans

src/span_exporter.cpp:28-128. The exporter that buffers spans is left out.
-/
namespace SecureLink.Source.Trace
open Library.BigEndian Library.Formatted

def newline : UInt8 := 0x0A

/-- The switch of `escape_json`. -/
def escapeChar (os : OStream) (c : UInt8) : OStream :=
  if c = 0x22 then os.put (ascii "\\\"")
  else if c = 0x5C then os.put (ascii "\\\\")
  else if c = newline then os.put (ascii "\\n")
  else if c = 0x0D then os.put (ascii "\\r")
  else if c = 0x09 then os.put (ascii "\\t")
  else if c < 0x20 then
    ((((((os.put (ascii "\\u")).setBase true).setw 4).setfill 0x30).putInt 32 c.toNat).setBase false).setw 0
  else os.put [c]

def escapeJson (os : OStream) (s : Bytes) : OStream :=
  (s.foldl escapeChar (os.put [0x22])).put [0x22]

/-- In microseconds, rounded towards zero, as an unsigned number. -/
def timeUs (t : Int) : Int := t.tdiv 1000 % 2 ^ 64

/-- A loop with a comma in front of every item but the first. -/
def commaLoop {α : Type} (item : OStream → α → OStream) : Bool → OStream → List α → OStream
  | _, os, [] => os
  | first, os, a :: rest => commaLoop item false (item (if !first then os.put [comma] else os) a) rest

def attributeToJson (os : OStream) (a : SpanAttribute) : OStream :=
  escapeJson ((escapeJson os a.key).put [colon]) a.value

/-- The attributes of a span or of an event, if there are any. -/
def attributesToJson (os : OStream) (attributes : List SpanAttribute) : OStream :=
  if attributes ≠ [] then
    (commaLoop attributeToJson true (os.put (ascii ",\"attributes\":\x7b")) attributes).put [0x7D]
  else os

def eventToJson (os : OStream) (e : SpanEvent) : OStream :=
  let os := ((os.put (ascii "\x7b\"at_us\":")).putInt 64 (timeUs e.at_)).put [comma]
  let os := escapeJson (os.put (ascii "\"name\":")) e.name
  (attributesToJson os e.attributes).put [0x7D]

def spanToJson (span : Span) (now : Int) : Bytes :=
  let tid := (slTraceIdToHex span.ctx.traceId (slTraceIdHexLen + 1)).getD []
  let sid := (slSpanIdToHex span.ctx.spanId (slSpanIdHexLen + 1)).getD []
  let psid :=
    if !slSpanIdIsZero span.parent.spanId then
      (slSpanIdToHex span.parent.spanId (slSpanIdHexLen + 1)).getD []
    else []
  let os := OStream.new.put [0x7B]
  let os := os.puts [ascii "\"trace_id\":\"", tid, ascii "\","]
  let os := os.puts [ascii "\"span_id\":\"", sid, ascii "\","]
  let os := if psid.getD 0 0 ≠ 0 then os.puts [ascii "\"parent_id\":\"", psid, ascii "\","] else os
  let os := (escapeJson (os.put (ascii "\"name\":")) span.name).put [comma]
  let os := os.puts [ascii "\"kind\":\"", slSpanKindName span.kind, ascii "\","]
  let os := os.puts [ascii "\"status\":\"", slSpanStatusName span.status, ascii "\","]
  let os :=
    if span.statusDesc ≠ [] then (escapeJson (os.put (ascii "\"status_desc\":")) span.statusDesc).put [comma]
    else os
  let os := ((os.put (ascii "\"start_us\":")).putInt 64 (timeUs span.start)).put [comma]
  let os := ((os.put (ascii "\"end_us\":")).putInt 64 (timeUs span.end_)).put [comma]
  let os := (os.put (ascii "\"duration_us\":")).putInt 64 (span.duration now)
  let os := attributesToJson os span.attrs
  let os :=
    if span.events ≠ [] then (commaLoop eventToJson true (os.put (ascii ",\"events\":[")) span.events).put [0x5D]
    else os
  (os.put [0x7D]).text

/-- `JsonStdoutSpanExporter::export_span`. -/
def exportSpan (os : OStream) (export_ : Span × Int) : OStream × Unit :=
  ((os.put (spanToJson export_.1 export_.2)).put [newline], ())

end SecureLink.Source.Trace
