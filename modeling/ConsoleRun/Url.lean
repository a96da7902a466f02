import ConsoleRun.Url.Host

-- Absolute URLs in their normal form: every URL is written in one way only. Its path is a
-- list of segments; schemes without hosts may have a path without structure instead.

namespace ConsoleRun

inductive UrlPath where
  | whole (text : Text)
  | segments (list : List Text)
  deriving DecidableEq, Repr

structure Url where
  scheme : Text
  username : Text
  password : Text
  host : Option Host
  port : Option Nat
  path : UrlPath
  query : Option Text
  fragment : Option Text
  deriving DecidableEq, Repr

namespace Url

-- Schemes with hosts of the network, and the ports that need not be written.
def defaultPort? (scheme : Text) : Option Nat :=
  let name := String.ofList scheme
  if name = "http" || name = "ws" then some 80
  else if name = "https" || name = "wss" then some 443
  else if name = "ftp" then some 21
  else none

def isFile (scheme : Text) : Bool := String.ofList scheme = "file"

def isSpecial (scheme : Text) : Bool := (defaultPort? scheme).isSome || isFile scheme

def isHttp (url : Url) : Bool := ["http", "https"].contains (String.ofList url.scheme)

def pathText : UrlPath → Text
  | .whole text => text
  | .segments list => list.flatMap ('/' :: ·)

def queryText (query : Option Text) : Text :=
  match query with
  | some text => '?' :: text
  | none => []

def credentials (url : Url) : Text :=
  if url.username.isEmpty && url.password.isEmpty then []
  else url.username ++ (if url.password.isEmpty then [] else ':' :: url.password) ++ ['@']

def portText (port : Option Nat) : Text :=
  match port with
  | some n => ':' :: Text.ofNat n
  | none => []

-- Host and port.
def authority (url : Url) : Text :=
  (url.host.map Host.toText).getD [] ++ portText url.port

-- A path that starts with two slashes would be read as a host where there is none.
def guarded (url : Url) : Text :=
  match url.path with
  | .segments ([] :: _ :: _) => "/.".toList
  | _ => []

def toText (url : Url) : Text :=
  url.scheme ++ ':' ::
    (match url.host with
      | some _ => "//".toList ++ url.credentials ++ url.authority
      | none => url.guarded) ++
    pathText url.path ++ queryText url.query ++
    (match url.fragment with
      | some text => '#' :: text
      | none => [])

-- What a request for the URL asks for.
def target (url : Url) : Text := pathText url.path ++ queryText url.query

def isSingleDot (segment : Text) : Bool :=
  [".", "%2e"].contains (String.ofList (Text.lower segment))

def isDoubleDot (segment : Text) : Bool :=
  ["..", ".%2e", "%2e.", "%2e%2e"].contains (String.ofList (Text.lower segment))

-- Puts one more segment behind others. Dots move within the path; as the last segment
-- they leave an empty one.
def putSegment (segments : List Text) (segment : Text) (last : Bool) : List Text :=
  if isDoubleDot segment then segments.dropLast ++ if last then [[]] else []
  else if isSingleDot segment then if last then segments ++ [[]] else segments
  else segments ++ [segment]

def putSegments (encodes : Char → Bool) : List Text → List Text → List Text
  | segments, [] => segments
  | segments, [only] => putSegment segments (Percent.encode encodes only) true
  | segments, segment :: rest =>
    putSegments encodes (putSegment segments (Percent.encode encodes segment) false) rest

def isBreak (c : Char) : Bool := c = '\t' || c = '\n' || c = '\r'

-- The segments without an empty one at the end, which is what a slash there makes.
def withoutTrailing (segments : List Text) : List Text :=
  match segments.reverse with
  | [] :: rest => if rest.isEmpty then segments else rest.reverse
  | _ => segments

-- One more segment, which may be any text but a dot or two: those are left out. Tabs and
-- line breaks do not get into a path. A path that is only a slash takes the segment in
-- its place.
def push (segments : List Text) (segment : Text) : List Text :=
  if segment = ['.'] || segment = ['.', '.'] then segments
  else
    let kept := Percent.encode Percent.inSegment (segment.filter fun c => !isBreak c)
    putSegment (if segments = [[]] then [] else segments) kept true

def segments (url : Url) : List Text :=
  match url.path with
  | .segments list => list
  | .whole _ => []

-- Names and values behind the query that is there already.
def appendQuery (query : Option Text) (pairs : List (Text × Text)) : Text :=
  let added := pairs.map fun pair => pair.1 ++ '=' :: pair.2
  match query with
  | none => Text.join ['&'] added
  | some text => Text.join ['&'] ((if text.isEmpty then [] else [text]) ++ added)

end Url
end ConsoleRun
