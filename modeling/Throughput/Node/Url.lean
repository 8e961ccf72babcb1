import Throughput.Text.IpAddress

/-!
# Locators of nodes

A locator has a scheme, an optional host with a port, a path, a query and a fragment. The special
schemes always have a host, and their hosts are read as internet addresses where they look like one.
Reading normalises: what has a default is left out, dots in paths are resolved, and characters that
may not stand in a part are written as the hexadecimal digits of their bytes. Credentials in front of a
host are passed over.
-/

namespace Throughput

/-- Why a text is no locator. -/
inductive UrlError where
  | noScheme
  | emptyHost
  | badPort
  | badV4
  | badV6
  | badDomain
  | badHostCharacter
deriving DecidableEq, Repr

/-- The wording of an error. -/
def UrlError.message : UrlError → String
  | .noScheme => "relative URL without a base"
  | .emptyHost => "empty host"
  | .badPort => "invalid port number"
  | .badV4 => "invalid IPv4 address"
  | .badV6 => "invalid IPv6 address"
  | .badDomain => "invalid international domain name"
  | .badHostCharacter => "invalid domain character"

/-- A locator. -/
structure Url where
  scheme : String
  host : Option String
  port : Option Nat
  path : String
  query : Option String
  fragment : Option String
deriving DecidableEq, Repr

namespace Url

/-! ## Characters -/

/-- The bytes of a character, each as a percent sign and two digits. -/
def escaped (c : Char) : List Char :=
  (String.singleton c).toUTF8.toList.flatMap fun b =>
    '%' :: (Hex.fixed 2 b.toNat).map Char.toUpper

/-- Escapes what is outside ASCII, a control character or in a set. -/
def escape (set : List Char) (text : List Char) : List Char :=
  text.flatMap fun c =>
    if c.toNat < 0x20 ∨ 0x7e < c.toNat ∨ set.contains c then escaped c else [c]

/-- What is escaped in a fragment. -/
def fragmentSet : List Char := [' ', '"', '<', '>', Char.ofNat 0x60]

/-- What is escaped in a path. -/
def pathSet : List Char := fragmentSet ++ ['#', '?', Char.ofNat 0x7b, Char.ofNat 0x7d]

/-- What is escaped in a query. -/
def querySet (isSpecial : Bool) : List Char :=
  [' ', '"', '#', '<', '>'] ++ if isSpecial then [Char.ofNat 39] else []

/-- The bytes of a text in which escaped bytes are resolved. -/
def unescape : List Char → List UInt8
  | [] => []
  | '%' :: a :: b :: rest =>
    match Hex.toNat? [a, b] with
    | some n => n.toUInt8 :: unescape rest
    | none => 0x25 :: unescape (a :: b :: rest)
  | c :: rest => (String.singleton c).toUTF8.toList ++ unescape rest
termination_by text => text.length

/-! ## Schemes -/

/-- The special schemes with their default ports. -/
def specialSchemes : List (String × Option Nat) :=
  [("http", some 80), ("https", some 443), ("ws", some 80), ("wss", some 443), ("ftp", some 21),
   ("file", none)]

/-- Splits the scheme off at its colon. -/
def splitScheme? (text : List Char) : Option (String × List Char) :=
  let isPart (c : Char) : Bool := c.isAlphanum || c == '+' || c == '-' || c == '.'
  let scheme := text.takeWhile isPart
  match scheme, text.dropWhile isPart with
  | first :: _, ':' :: rest =>
    if first.isAlpha then some (String.ofList (scheme.map Char.toLower), rest) else none
  | _, _ => none

/-! ## Hosts -/

/-- Cuts a text at every occurrence of a separator. -/
def splitAll (isSeparator : Char → Bool) (text : List Char) : List (List Char) :=
  text.foldr (fun c parts =>
    if isSeparator c then [] :: parts
    else match parts with
      | [] => [[c]]
      | part :: rest => (c :: part) :: rest) [[]]

/-- A part of an address of version 4, with digits of base ten, eight or sixteen. -/
def v4Number? (part : List Char) : Option Nat :=
  let digits (base : Nat) (text : List Char) : Option Nat :=
    if text.all fun c => (Hex.value? c).any (· < base) then
      some (text.foldl (fun n c => base * n + (Hex.value? c).getD 0) 0)
    else none
  match part with
  | [] => none
  | '0' :: 'x' :: rest => digits 16 rest
  | '0' :: 'X' :: rest => digits 16 rest
  | '0' :: d :: rest => digits 8 (d :: rest)
  | _ => digits 10 part

/-- The parts of a domain; a point at the end does not count. -/
def domainParts (domain : List Char) : List (List Char) :=
  let parts := splitAll (· == '.') domain
  if 1 < parts.length ∧ parts.getLast? = some [] then parts.dropLast else parts

/-- Is the last part of a domain a number? -/
def endsInNumber (domain : List Char) : Bool :=
  match (domainParts domain).getLast? with
  | some part => (!part.isEmpty && part.all Char.isDigit) || (v4Number? part).isSome
  | none => false

/-- Reads an address of version 4, whose last number fills all parts that are missing. -/
def readV4 (domain : List Char) : Except UrlError String :=
  let parts := domainParts domain
  match parts.mapM v4Number? with
  | none => .error .badV4
  | some numbers =>
    let leading := numbers.dropLast
    let last := (numbers.getLast?).getD 0
    if 4 < numbers.length ∨ leading.any (255 < ·) ∨ Nat.pow 256 (4 - leading.length) ≤ last then
      .error .badV4
    else
      let value := leading.zipIdx.foldl (fun sum (n, i) => sum + n * Nat.pow 256 (3 - i)) last
      .ok (IpAddress.octetsText ((List.range 4).reverse.map fun i => value / Nat.pow 256 i % 256))

/-- Reads an address of version 6 between its brackets. -/
def readV6 (host : List Char) : Except UrlError String :=
  match host.getLast?, IpAddress.readV6? host.tail with
  | some ']', some (groups, [']']) => .ok ("[" ++ IpAddress.v6Text groups ++ "]")
  | _, _ => .error .badV6

/-- Characters that no host contains. -/
def forbiddenInHost : List Char :=
  [Char.ofNat 0, '\t', '\n', '\r', ' ', '#', '/', ':', '<', '>', '?', '@', '[', '\\', ']', '^', '|']

/-- May the character not stand in a domain? -/
def isForbiddenInDomain (c : Char) : Bool :=
  forbiddenInHost.contains c || c == '%' || c.toNat < 0x20 || c.toNat == 0x7f

/-- Reads the host of a special scheme. Letters of ASCII count as small letters. -/
def readHost (host : List Char) : Except UrlError String :=
  if host.head? = some '[' then readV6 host
  else match String.fromUTF8? (unescape host).toByteArray with
    | none => .error .badDomain
    | some text =>
      let domain := text.toList.map Char.toLower
      if domain.any isForbiddenInDomain then .error .badDomain
      else if domain.isEmpty then .error .emptyHost
      else if endsInNumber domain then readV4 domain
      else .ok (String.ofList domain)

/-- Reads the host of another scheme. -/
def readOpaqueHost (host : List Char) : Except UrlError String :=
  if host.head? = some '[' then readV6 host
  else if host.any forbiddenInHost.contains then .error .badHostCharacter
  else .ok (String.ofList (escape [] host))

/-- Reads a port up to the end of the authority; a default port is left out. -/
def readPort (standard : Option Nat) (digits : List Char) : Except UrlError (Option Nat) :=
  let value := digits.foldl (fun n c => 10 * n + (c.toNat - '0'.toNat)) 0
  if !digits.all Char.isDigit || 65535 < value then .error .badPort
  else if digits.isEmpty || some value == standard then .ok none
  else .ok (some value)

/-- Splits host and port at the first colon outside brackets. -/
def splitPort (isInside : Bool) : List Char → List Char × Option (List Char)
  | [] => ([], none)
  | c :: rest =>
    if c = ':' ∧ !isInside then ([], some rest)
    else
      let (host, port) := splitPort (c == '[' || (isInside && c != ']')) rest
      (c :: host, port)

/-- What follows the last at sign, and what stands before it. -/
def splitCredentials (authority : List Char) : Option (List Char) × List Char :=
  let reversed := authority.reverse
  match reversed.dropWhile (· != '@') with
  | [] => (none, authority)
  | _ :: credentials => (some credentials.reverse, (reversed.takeWhile (· != '@')).reverse)

/-- Reads host and port of a scheme with its default port, if it is special. -/
def readAuthority (special : Option (Option Nat)) (authority : List Char) :
    Except UrlError (String × Option Nat) := do
  let (credentials, rest) := splitCredentials authority
  let (host, port) := splitPort false rest
  let isNamed := credentials.any fun c => !c.isEmpty && c != [':']
  if host.isEmpty && (special.isSome || port.isSome || isNamed) then throw .emptyHost
  else
    let host ← if special.isSome then readHost host else readOpaqueHost host
    pure (host, ← readPort special.join (port.getD []))

/-! ## Paths -/

/-- Is a segment one dot? -/
def isDot (segment : String) : Bool := [".", "%2e"].contains segment.toLower

/-- Is a segment two dots? -/
def isDoubleDot (segment : String) : Bool :=
  ["..", ".%2e", "%2e.", "%2e%2e"].contains segment.toLower

/-- Resolves dots; the segments so far come in reverse. -/
def resolve (done : List String) : List String → List String
  | [] => done.reverse
  | segment :: rest =>
    if isDoubleDot segment then resolve (if rest.isEmpty then "" :: done.tail else done.tail) rest
    else if isDot segment then resolve (if rest.isEmpty then "" :: done else done) rest
    else resolve (segment :: done) rest

/-- Reads a path after its first slash. -/
def readPath (isSpecial : Bool) (text : List Char) : String :=
  let isSlash (c : Char) : Bool := c == '/' || (isSpecial && c == '\\')
  let segments := (splitAll isSlash text).map fun s => String.ofList (escape pathSet s)
  "/" ++ String.intercalate "/" (resolve [] segments)

/-- The path of a locator with a host; a special one is never empty. -/
def readPathStart (isSpecial : Bool) (text : List Char) : String :=
  match text with
  | [] => if isSpecial then "/" else ""
  | '/' :: rest => readPath isSpecial rest
  | c :: rest => readPath isSpecial (if isSpecial ∧ c = '\\' then rest else c :: rest)

/-! ## Locators -/

/-- Cuts a text before the first of some characters. -/
def cutBefore (isEnd : Char → Bool) (text : List Char) : List Char × List Char :=
  (text.takeWhile (!isEnd ·), text.dropWhile (!isEnd ·))

/-- Reads what stands between scheme and query: host, port and path. -/
def readMiddle (scheme : String) (text : List Char) :
    Except UrlError (Option String × Option Nat × String) :=
  let isSlash (c : Char) : Bool := c == '/' || c == '\\'
  match specialSchemes.find? (·.1 == scheme) with
  | some (_, some port) => do
    let (authority, path) := cutBefore isSlash (text.dropWhile isSlash)
    let (host, port) ← readAuthority (some (some port)) authority
    pure (some host, port, readPathStart true path)
  | some (_, none) => do
    let whole (path : List Char) : String :=
      "/" ++ String.ofList ((readPathStart true path).toList.dropWhile (· == '/'))
    match text with
    | a :: b :: rest =>
      if isSlash a && isSlash b then
        let (name, path) := cutBefore isSlash rest
        let host ← if name.isEmpty then pure "" else readHost name
        pure (some (if host = "localhost" then "" else host), none, whole path)
      else pure (some "", none, whole text)
    | _ => pure (some "", none, whole text)
  | none =>
    match text with
    | '/' :: '/' :: rest => do
      let (authority, path) := cutBefore (· == '/') rest
      let (host, port) ← readAuthority none authority
      pure (some host, port, readPathStart false path)
    | '/' :: rest => .ok (none, none, readPath false rest)
    | _ => .ok (none, none, String.ofList (escape [] text))

/-- Reads a locator. Control characters and spaces around it, and tabs and line ends in it, do not
count. -/
def read (text : String) : Except UrlError Url := do
  let isOuter (c : Char) : Bool := c.toNat ≤ 0x20
  let trimmed := ((text.toList.dropWhile isOuter).reverse.dropWhile isOuter).reverse
  let chars := trimmed.filter fun c => c != '\t' && c != '\n' && c != '\r'
  match splitScheme? chars with
  | none => throw .noScheme
  | some (scheme, rest) =>
    let isSpecial := (specialSchemes.find? (·.1 == scheme)).isSome
    let (rest, fragment) := cutBefore (· == '#') rest
    let (middle, query) := cutBefore (· == '?') rest
    let (host, port, path) ← readMiddle scheme middle
    pure {
      scheme, host, port, path
      query := query.head?.map fun _ => String.ofList (escape (querySet isSpecial) query.tail)
      fragment := fragment.head?.map fun _ => String.ofList (escape fragmentSet fragment.tail) }

/-- The written form. -/
def text (u : Url) : String :=
  let start := match u.host with
    | some host => "//" ++ host ++ (u.port.map fun p => ":" ++ toString p).getD ""
    | none => if u.path.startsWith "//" then "/." else ""
  u.scheme ++ ":" ++ start ++ u.path ++ (u.query.map ("?" ++ ·)).getD "" ++
    (u.fragment.map ("#" ++ ·)).getD ""

end Url

end Throughput
