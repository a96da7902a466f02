import ConsoleRun.Url

-- Reading of absolute URLs as people type them: blanks around them, tabs and line breaks
-- inside, capitals, backslashes for slashes and other spellings of one URL are understood.

namespace ConsoleRun.Url

abbrev Reading := Except UrlError

def isEdge (c : Char) : Bool := c.toNat ≤ 32

-- The text without control characters and spaces around it, and without breaks in it.
def clean (text : Text) : Text :=
  (((text.dropWhile isEdge).reverse.dropWhile isEdge).reverse).filter fun c => !isBreak c

def isSchemeChar (c : Char) : Bool := isAsciiAlnum c || c = '+' || c = '-' || c = '.'

-- The scheme in small letters, and what follows its colon.
def scheme? (text : Text) : Option (Text × Text) :=
  if text.head?.any isAsciiLetter then
    match text.dropWhile isSchemeChar with
    | ':' :: rest => some (Text.lower (text.takeWhile isSchemeChar), rest)
    | _ => none
  else none

def isSlash (special : Bool) (c : Char) : Bool := c = '/' || (special && c = '\\')

-- Characters that end the part of a URL with the host.
def endsAuthority (special : Bool) (c : Char) : Bool :=
  isSlash special c || c = '?' || c = '#'

def splitPieces (special : Bool) (text : Text) : List Text :=
  Text.splitOn '/' (text.map fun c => if isSlash special c then '/' else c)

-- Query and fragment, each without the sign that opens it.
def tail (special : Bool) (text : Text) : Option Text × Option Text :=
  let encodes := if special then Percent.inSpecialQuery else Percent.inQuery
  let fragmentOf := fun (rest : Text) => match rest with
    | '#' :: more => some (Percent.encode Percent.inFragment more)
    | _ => none
  match text with
  | '?' :: rest =>
    (some (Percent.encode encodes (rest.takeWhile (· ≠ '#'))),
      fragmentOf (rest.dropWhile (· ≠ '#')))
  | rest => (none, fragmentOf rest)

def endsPath (c : Char) : Bool := c = '?' || c = '#'

def isDriveLetter (segment : Text) : Bool :=
  match segment with
  | [letter, mark] => isAsciiLetter letter && (mark = ':' || mark = '|')
  | _ => false

-- A drive letter at the front of a file's path is written with a colon.
def normalDrive (segments : List Text) : List Text :=
  match segments with
  | [letter, '|'] :: rest => if isAsciiLetter letter then [letter, ':'] :: rest else segments
  | _ => segments

-- The path of a URL with a host. Special URLs always have one.
def hostPath (scheme text : Text) : List Text :=
  let special := isSpecial scheme
  match text with
  | [] => if special then [[]] else []
  | c :: rest =>
    let pieces := if isSlash special c then rest else c :: rest
    putSegments Percent.inPath [] (splitPieces special pieces)

-- Files have a path that starts with one slash, however many were typed.
def filePath (text : Text) : List Text :=
  match (normalDrive (hostPath "file".toList text)).dropWhile List.isEmpty with
  | [] => [[]]
  | segments => segments

structure Authority where
  username : Text
  password : Text
  host : Host
  port : Option Nat

def encodeUser (text : Text) : Text := Percent.encode Percent.inUserinfo text

-- Name and password before the last `@`, and what follows that.
def userinfo (text : Text) : Option ((Text × Text) × Text) :=
  let behind := (text.reverse.takeWhile (· ≠ '@')).reverse
  if behind.length = text.length then none
  else
    let user := text.take (text.length - behind.length - 1)
    let password := (user.dropWhile (· ≠ ':')).drop 1
    some ((encodeUser (user.takeWhile (· ≠ ':')), encodeUser password), behind)

-- The host, which a colon outside of brackets ends, and what follows it.
def hostText : (inside : Bool) → Text → Text × Text
  | _, [] => ([], [])
  | inside, c :: rest =>
    if c = ':' && !inside then ([], c :: rest)
    else
      let inside := if c = '[' then true else if c = ']' then false else inside
      let (host, behind) := hostText inside rest
      (c :: host, behind)

-- The port behind a colon. The one that the scheme has anyway is left out. A slash of
-- the other kind ends it in any scheme.
def portOf (scheme text : Text) : Reading (Option Nat × Text) :=
  let digits := text.takeWhile isDigit
  let rest := text.dropWhile isDigit
  let n := digits.foldl (fun total c => min (total * 10 + (c.toNat - 48)) (Nat.pow 2 16)) 0
  if Nat.pow 2 16 ≤ n || !(rest.isEmpty || rest.head? == some '\\') then .error .invalidPort
  else if digits.isEmpty || defaultPort? scheme = some n then .ok (none, rest)
  else .ok (some n, rest)

-- User, host and port, and what of the text does not belong to them.
def authority? (scheme text : Text) : Reading (Authority × Text) := do
  let special := isSpecial scheme
  let found := userinfo text
  let ((username, password), place) := found.getD (([], []), text)
  let (name, rest) := hostText false place
  if name.isEmpty && (special || rest.head? == some ':' || !(username ++ password).isEmpty) then
    throw .emptyHost
  let host ← if special then Host.parse name else Host.parseOpaque name
  match rest with
  | ':' :: digits =>
    let (port, rest) ← portOf scheme digits
    pure (⟨username, password, host, port⟩, rest)
  | _ => pure (⟨username, password, host, none⟩, rest)

-- A URL whose host stands behind slashes.
def withHost (scheme text : Text) : Reading Url := do
  let special := isSpecial scheme
  let front := text.takeWhile fun c => !endsAuthority special c
  let rest := text.dropWhile fun c => !endsAuthority special c
  let (found, more) ← authority? scheme front
  let behind := more ++ rest
  let (query, fragment) := tail special (behind.dropWhile fun c => !endsPath c)
  pure ⟨scheme, found.username, found.password, some found.host, found.port,
    .segments (hostPath scheme (behind.takeWhile fun c => !endsPath c)), query, fragment⟩

-- A URL of a scheme without hosts of the network.
def withoutHost (scheme text : Text) : Url :=
  let front := text.takeWhile fun c => !endsPath c
  let (query, fragment) := tail false (text.dropWhile fun c => !endsPath c)
  let path := match front with
    | '/' :: _ => .segments (hostPath scheme front)
    | _ => .whole (Percent.encode Percent.isControl front)
  ⟨scheme, [], [], none, none, path, query, fragment⟩

def fileUrl (host : Host) (text : Text) : Url :=
  let (query, fragment) := tail true (text.dropWhile fun c => !endsPath c)
  ⟨"file".toList, [], [], some host, none,
    .segments (filePath (text.takeWhile fun c => !endsPath c)), query, fragment⟩

-- The host of a file is left out when it is the own machine, or when there is a drive
-- letter in its place.
def file (text : Text) : Reading Url :=
  match text with
  | a :: b :: rest =>
    if isSlash true a && isSlash true b then
      let name := rest.takeWhile fun c => !endsAuthority true c
      let behind := rest.dropWhile fun c => !endsAuthority true c
      if name.isEmpty || isDriveLetter name then .ok (fileUrl (.name []) rest)
      else
        match Host.parse name with
        | .error error => .error error
        | .ok host =>
          .ok (fileUrl (if host = .name "localhost".toList then .name [] else host) behind)
    else .ok (fileUrl (.name []) text)
  | _ => .ok (fileUrl (.name []) text)

def parse (text : Text) : Reading Url :=
  match scheme? (clean text) with
  | none => .error .relative
  | some (scheme, rest) =>
    if isFile scheme then file rest
    else if isSpecial scheme then withHost scheme (rest.dropWhile (isSlash true))
    else
      match rest with
      | '/' :: '/' :: behind => withHost scheme behind
      | _ => .ok (withoutHost scheme rest)

end ConsoleRun.Url
