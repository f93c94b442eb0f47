import RtpBroker.Decimal
import RtpBroker.Metrics

/-!
# The text of the metrics

Families in the order of their names, each with its help and type, and the
series of a family in the order of their label values. A family without series
is left out, except that those without labels always have one.
-/

namespace RtpBroker.Exposition

def contentType : String := "text/plain; version=0.0.4"

def escapeLabel (c : Char) : List Char :=
  match c with
  | '\\' => ['\\', '\\']
  | '\n' => ['\\', 'n']
  | '"' => ['\\', '"']
  | c => [c]

def labelText (name value : String) : String :=
  name ++ "=\"" ++ String.ofList (value.toList.flatMap escapeLabel) ++ "\""

/-- One line: the name, its labels between braces, and the value. -/
def sample (name : String) (labels : List (String × String)) (value : String) : String :=
  let ls := labels.map fun (n, v) => labelText n v
  name ++ (if ls.isEmpty then "" else "\x7b" ++ ",".intercalate ls ++ "\x7d") ++ " " ++ value

def header (name help kind : String) : List String :=
  ["# HELP " ++ name ++ " " ++ help, "# TYPE " ++ name ++ " " ++ kind]

def readingText : Reading → String
  | .whole n => toString n
  | .real x => decimalText x

def labelsBefore : List String → List String → Bool
  | a :: as, b :: bs => if a == b then labelsBefore as bs else decide (a < b)
  | [], _ => true
  | _ :: _, [] => false

def sorted {α : Type} (fam : Family α) : List (List String × α) :=
  fam.series.mergeSort fun (a, _) (b, _) => labelsBefore a b

def cumulative : Nat → List Nat → List Nat
  | _, [] => []
  | acc, c :: cs => (acc + c) :: cumulative (acc + c) cs

def histogram (name : String) (labels : List (String × String)) (h : Histogram) : List String :=
  ((h.bounds.zip (cumulative 0 h.counts)).map fun (b, c) =>
    sample (name ++ "_bucket") (labels ++ [("le", decimalText b)]) (toString c)) ++
  [sample (name ++ "_bucket") (labels ++ [("le", "+Inf")]) (toString h.samples),
    sample (name ++ "_sum") labels (decimalText h.sum),
    sample (name ++ "_count") labels (toString h.samples)]

def counters (name help : String) (names : List String) (fam : Family Nat) : List String :=
  if fam.series.isEmpty then []
  else header name help "counter" ++
    (sorted fam).map fun (ls, n) => sample name (names.zip ls) (toString n)

def histograms (name help : String) (names : List String) (fam : Family Histogram) : List String :=
  if fam.series.isEmpty then []
  else header name help "histogram" ++
    (sorted fam).flatMap fun (ls, h) => histogram name (names.zip ls) h

def counter (name help : String) (n : Nat) : List String :=
  header name help "counter" ++ [sample name [] (toString n)]

def named (s : String) : String := "mediabroker_" ++ s

def lines (m : Metrics) : List String :=
  counter (named "datagrams_received_total") "Gesamtanzahl empfangener RTP-Datagramme" m.datagrams ++
  histograms (named "http_request_duration_seconds") "HTTP-Antwortzeit in Sekunden"
    ["method", "path"] m.requestSeconds ++
  counters (named "http_requests_total") "Gesamtanzahl HTTP-Anfragen"
    ["method", "path", "status"] m.requests ++
  counters (named "playbacks_total") "Beendete Wiedergaben nach Ergebnis" ["outcome"] m.playbacks ++
  counters (named "port_allocations_total") "Port-Zuweisungen nach Ergebnis" ["result"]
    m.allocations ++
  counter (named "remote_learned_total") "Anzahl gelernter Remote-Adressen" m.learned ++
  (header (named "sessions_active") "Anzahl offener RTP-Sessions" "gauge" ++
    [sample (named "sessions_active") [] (readingText m.sessions)]) ++
  (header (named "stream_duration_seconds") "Laufzeit des Streaming-Prozesses in Sekunden"
      "histogram" ++
    histogram (named "stream_duration_seconds") [] m.streamSeconds)

def text (m : Metrics) : String := String.join ((lines m).map (· ++ "\n"))

end RtpBroker.Exposition
