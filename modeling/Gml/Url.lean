import Gml.Path
import Gml.Url.Host
import Gml.Url.Segment

/-!
# Addresses of documents

An address names its scheme, where there is such a thing the host of the document with
a user and a port, and a path, which is a chain of segments below a root or, in schemes
without places, may be any text. Reading an address brings it into its one normal form.
Addresses without a host have paths on this disk, whatever their scheme; paths on
disk have addresses in the scheme of files.
-/
namespace Gml

/-- What stands between two slashes and the path. -/
structure Authority where
  user : String := ""
  password : String := ""
  host : Option Host := none
  port : Option Nat := none
  deriving DecidableEq, Repr, Inhabited

structure Url where
  scheme : String
  /-- None if there are no two slashes before the path. -/
  authority : Option Authority
  path : String
  query : Option String := none
  fragment : Option String := none
  deriving DecidableEq, Repr, Inhabited

namespace Authority

def render (authority : Authority) : String :=
  let password := if authority.password.isEmpty then "" else ":" ++ authority.password
  let user := authority.user ++ password
  (if user.isEmpty then "" else user ++ "@") ++ (authority.host.map Host.render).getD ""
    ++ (authority.port.map fun port => ":" ++ Nat.repr port).getD ""

/-- What stands before and behind the last of a character. -/
def cutLast (c : Char) (cs : List Char) : Option (List Char × List Char) :=
  (Text.splitFirst? (· == c) cs.reverse).map fun (after, before) => (before.reverse, after.reverse)

/-- Cuts a host off a port: at the first colon that is not in brackets. -/
def cutPort : Bool → List Char → List Char × Option (List Char)
  | _, [] => ([], none)
  | inside, c :: rest =>
      if c == ':' && !inside then ([], some rest)
      else
        let (host, port) := cutPort (if c == '[' then true else inside && c != ']') rest
        (c :: host, port)

def standardPort? : String → Option Nat
  | "http" | "ws" => some 80
  | "https" | "wss" => some 443
  | "ftp" => some 21
  | _ => none

/-- A port of 16 bits; no digits and the standard port count as none. -/
def port? (scheme : String) (digits : List Char) : Option (Option Nat) :=
  if digits.isEmpty then some none
  else
    ((Numeral.value? 10 digits).filter (· < Nat.pow 2 16)).map fun port =>
      if standardPort? scheme == some port then none else some port

/-- The user before the last `@`, a password behind its first colon, and the rest. -/
def splitUser (cs : List Char) : Authority × List Char :=
  match cutLast '@' cs with
  | none => ({}, cs)
  | some (info, rest) =>
      let encode (cs : List Char) : String := String.ofList (Percent.encode Percent.inUser cs)
      match Text.splitFirst? (· == ':') info with
      | none => ({ user := encode info }, rest)
      | some (user, password) => ({ user := encode user, password := encode password }, rest)

/-- Reads a user, a host and a port. A user, a port and any of the special schemes need
a host. A backslash ends a port, and the rest from there on is handed back. -/
def parse? (scheme : String) (special : Bool) (cs : List Char) :
    Option (Authority × List Char) := do
  let (authority, rest) := splitUser cs
  let (name, port) := cutPort false rest
  if name.isEmpty then
    if authority = {} && port.isNone && !special then some ({}, []) else none
  else
    let host ← if special then Host.parse? name else Host.parseOther? name
    match port with
    | none => return ({ authority with host := some host }, [])
    | some text =>
        let port ← port? scheme (text.takeWhile (· != '\\'))
        return ({ authority with host := some host, port }, text.dropWhile (· != '\\'))

end Authority

namespace Url

/-! ### Reading -/

/-- Schemes with hosts and files, where a backslash is as good as a slash. -/
def isSpecial (scheme : String) : Bool :=
  ["http", "https", "ws", "wss", "ftp", "file"].contains scheme

def isSchemeChar (c : Char) : Bool := c.isAlphanum || c == '+' || c == '-' || c == '.'

def isScheme : List Char → Bool
  | [] => false
  | c :: rest => c.isAlpha && rest.all isSchemeChar

def counting (cs : List Char) : List Char := cs.filter (!isIgnored ·)

def trim (cs : List Char) : List Char :=
  let outer (c : Char) : Bool := c.toNat ≤ 0x20
  ((cs.dropWhile outer).reverse.dropWhile outer).reverse

def cut (c : Char) (cs : List Char) : List Char × Option (List Char) :=
  match Text.splitFirst? (· == c) cs with
  | some (before, after) => (before, some after)
  | none => (cs, none)

/-- The rest behind a slash, if the next character that counts is one. -/
def slash? (isSlash : Char → Bool) (cs : List Char) : Option (List Char) :=
  match cs.dropWhile isIgnored with
  | c :: rest => if isSlash c then some rest else none
  | [] => none

def isEitherSlash (c : Char) : Bool := c == '/' || c == '\\'

abbrev Place := Option Authority × List Char

/-- The path that a text below the root stands for. -/
def chainOf (ofFile : Bool) (isSlash : Char → Bool) (cs : List Char) : Segment.Chain :=
  Segment.Chain.addAll ofFile {} (Text.splitAll isSlash cs)

/-- The place of a file on a host. On a drive the host does not matter, and empty
segments at the front of the path do not count. -/
def filePlace (host : Option Host) (cs : List Char) : Place :=
  let chain := chainOf true isEitherSlash cs
  (some { host := if chain.onDrive then none else host }, '/' :: chain.path.dropWhile (· == '/'))

/-- The place of a file behind two slashes. This very host counts as none, and where
there is none the slash in front of the path leaves an empty segment. -/
def filePlaceBehind? (cs : List Char) : Option Place :=
  let name := counting (cs.takeWhile fun c => !isEitherSlash c)
  let path := cs.dropWhile fun c => !isEitherSlash c
  if name.isEmpty || Segment.isDrive name then some (filePlace none cs)
  else
    (Host.parse? name).map fun host : Host =>
      if host = .domain "localhost" then filePlace none path else filePlace host (path.drop 1)

/-- The place of a file, from what follows the scheme. -/
def filePlace? (cs : List Char) : Option Place :=
  match slash? isEitherSlash cs with
  | none => some (filePlace none cs)
  | some rest =>
      match slash? isEitherSlash rest with
      | none => some (filePlace none rest)
      | some more => filePlaceBehind? more

/-- The place in a special scheme other than that of files. Any number of slashes stands
before the host. -/
def specialPlace? (scheme : String) (cs : List Char) : Option Place := do
  let behind := cs.dropWhile fun c => isEitherSlash c || isIgnored c
  let (authority, _) ← Authority.parse? scheme true
    (counting (behind.takeWhile fun c => !isEitherSlash c))
  let rest := (behind.dropWhile fun c => !isEitherSlash c).drop 1
  return (some authority, (chainOf false isEitherSlash rest).path)

/-- The path below a root in any other scheme. -/
def otherPath (cs : List Char) : List Char := (chainOf false (· == '/') cs).path

/-- The place in any other scheme behind two slashes. A mark of a user without user and
host stands at the end of an address only. -/
def otherPlaceBehind? (scheme : String) (isEnd : Bool) (cs : List Char) : Option Place := do
  let text := counting (cs.takeWhile (· != '/'))
  let rest := cs.dropWhile (· != '/')
  if text == ['@'] && !(isEnd && rest.isEmpty) then none
  else
    let (authority, unread) ← Authority.parse? scheme false text
    let path := match unread, rest with
      | [], [] => []
      | [], _ :: below => otherPath below
      | unread, rest => otherPath (unread ++ rest)
    return (some authority, path)

def otherPlace? (scheme : String) (isEnd : Bool) (cs : List Char) : Option Place :=
  match slash? (· == '/') cs with
  | none => some (none, Percent.encodeControls (counting cs))
  | some rest =>
      match slash? (· == '/') rest with
      | none => some (none, otherPath rest)
      | some more => otherPlaceBehind? scheme isEnd more

/-- The place that an address names, from what follows the scheme. -/
def place? (scheme : String) (isEnd : Bool) (cs : List Char) : Option Place :=
  if scheme = "file" then filePlace? cs
  else if isSpecial scheme then specialPlace? scheme cs
  else otherPlace? scheme isEnd cs

/-- Reads an address and brings it into normal form. -/
def parse? (text : String) : Option Url := do
  let (scheme, rest) ← Text.splitFirst? (· == ':') (trim text.toList)
  if !isScheme (counting scheme) then none
  else
    let scheme := String.ofList ((counting scheme).map Char.toLower)
    let (rest, fragment) := cut '#' rest
    let (rest, query) := cut '?' rest
    let (authority, path) ← place? scheme (query.isNone && fragment.isNone) rest
    let encode (escaped : Char → Bool) (cs : List Char) : String :=
      String.ofList (Percent.encode escaped (counting cs))
    return {
      scheme, authority, path := String.ofList path
      query := query.map (encode (Percent.inQuery (isSpecial scheme)))
      fragment := fragment.map (encode Percent.inFragment) }

/-! ### Writing -/

def render (url : Url) : String :=
  let authority := match url.authority with
    | some authority => "//" ++ authority.render
    | none => if url.path.startsWith "//" then "/." else ""
  url.scheme ++ ":" ++ authority ++ url.path
    ++ (url.query.map ("?" ++ ·)).getD "" ++ (url.fragment.map ("#" ++ ·)).getD ""

/-! ### Files -/

/-- Whether an address is on this host. -/
def isHere (url : Url) : Bool :=
  match url.authority.bind (·.host) with
  | none => true
  | some host => host == .domain "localhost"

/-- Bytes that end in a drive get a slash behind it. -/
def closeDrive (bytes : List UInt8) : List UInt8 :=
  match bytes.reverse with
  | mark :: letter :: _ :: _ =>
      if Segment.isDrive [Char.ofNat letter.toNat, Char.ofNat mark.toNat] then bytes ++ [0x2F]
      else bytes
  | _ => bytes

/-- The path on disk that an address gives: its path below a root, decoded. -/
def filePath? (url : Url) : Option FilePath :=
  if url.isHere && Path.isAbsolute url.path then
    some ⟨closeDrive (Percent.decodeBytes url.path.toList)⟩
  else none

/-- The segment of a component of a path. -/
def componentSegment? : PathComponent → Option (List Char)
  | .root => none
  | .here => some ['.']
  | .up => some ['.', '.']
  | .normal name => some (Percent.encode Percent.inName name.toList)

/-- The address of the file at an absolute path. -/
def ofFilePath? (path : String) : Option Url :=
  if Path.isAbsolute path then
    let segments := (Path.components path).filterMap componentSegment?
    let path := if segments.isEmpty then ['/'] else segments.flatMap ('/' :: ·)
    some { scheme := "file", authority := some {}, path := String.ofList path }
  else none

end Url

end Gml
