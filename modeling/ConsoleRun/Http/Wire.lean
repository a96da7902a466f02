import ConsoleRun.Http
import ConsoleRun.Json.Writer
import ConsoleRun.Text.Utf8

-- Requests and replies as the bytes that go over a connection. Every connection carries
-- one request, so a reply may also end where the connection does.

namespace ConsoleRun

namespace HttpRequest

def lineEnd : Text := "\r\n"

def contentText (request : HttpRequest) : Text :=
  match request.content with
  | some content => Json.compact content.toJson
  | none => []

def headerLines (headers : List (Text × Text)) : Text :=
  headers.flatMap fun header => header.1 ++ ": ".toList ++ header.2 ++ lineEnd

def bytes (request : HttpRequest) : List UInt8 :=
  let content := Text.bytes request.contentText
  let closing := [("connection".toList, "close".toList),
    ("content-length".toList, Text.ofNat content.length)]
  let start := request.method.name.toList ++ ' ' :: request.url.target ++ " HTTP/1.1".toList
  Text.bytes (start ++ lineEnd ++ headerLines (request.headers ++ closing) ++ lineEnd) ++ content

end HttpRequest

namespace HttpReply

-- A line of bytes without its end, and what follows.
def lineOf? : List UInt8 → Option (List UInt8 × List UInt8)
  | [] => none
  | 13 :: 10 :: rest => some ([], rest)
  | 10 :: rest => some ([], rest)
  | b :: rest => (lineOf? rest).map fun found => (b :: found.1, found.2)

-- Lines up to an empty one, and what follows that one.
def head? : (fuel : Nat) → List UInt8 → Option (List Text × List UInt8)
  | 0, _ => none
  | fuel + 1, bytes =>
    (lineOf? bytes).bind fun (line, rest) =>
      if line.isEmpty then some ([], rest)
      else (head? fuel rest).map fun (lines, rest) => (Utf8.decode line :: lines, rest)

def headerOf (line : Text) : Text × Text :=
  (Text.lower (line.takeWhile (· ≠ ':')), Text.trim ((line.dropWhile (· ≠ ':')).drop 1))

def status? (line : Text) : Option Nat :=
  match Text.words line with
  | version :: code :: _ =>
    if (Text.dropStart? "HTTP/1.".toList version).isSome then Text.digits? code else none
  | _ => none

def hexSize? (line : Text) : Option Nat :=
  let digits := line.takeWhile isHexDigit
  if digits.isEmpty then none
  else digits.foldl (fun total c => total.bind fun n =>
    (Json.hexValue? c).map fun d => n * 16 + d) (some 0)

-- Pieces with their sizes in front, up to one of size zero.
def pieces? : (fuel : Nat) → List UInt8 → Option (List UInt8)
  | 0, _ => none
  | fuel + 1, bytes =>
    (lineOf? bytes).bind fun (line, rest) =>
      (hexSize? (Utf8.decode line)).bind fun size =>
        if size = 0 then some []
        else if rest.length < size then none
        else
          (lineOf? (rest.drop size)).bind fun (_, behind) =>
            (pieces? fuel behind).map (rest.take size ++ ·)

def bodyOf? (headers : List (Text × Text)) (bytes : List UInt8) : Option (List UInt8) :=
  let header := fun (name : String) =>
    (headers.find? fun header => header.1 = name.toList).map (·.2)
  if (header "transfer-encoding").any fun value => Text.lower value = "chunked".toList then
    pieces? (bytes.length + 1) bytes
  else
    match (header "content-length").bind Text.digits? with
    | some size => if bytes.length < size then none else some (bytes.take size)
    | none => some bytes

-- The reply that a connection brought. Announcements before it are passed over.
def ofBytes? : (fuel : Nat) → List UInt8 → Option HttpReply
  | 0, _ => none
  | fuel + 1, bytes =>
    match head? (bytes.length + 1) bytes with
    | some (first :: headers, rest) =>
      (status? first).bind fun status =>
        if 100 ≤ status && status ≤ 199 && status ≠ 101 then ofBytes? fuel rest
        else if ({ status := status, body := [] } : HttpReply).bodyless then some ⟨status, []⟩
        else (bodyOf? (headers.map headerOf) rest).map fun body => ⟨status, Utf8.decode body⟩
    | _ => none

def parse? (bytes : List UInt8) : Option HttpReply := ofBytes? (bytes.length + 1) bytes

end HttpReply
end ConsoleRun
