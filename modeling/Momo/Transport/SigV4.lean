import Momo.Schemes.Delimited
import Momo.Common.Path
import Momo.Transport.Handshake

/-! @momo src/transport/sigv4.go | scheme:canonical text

    The check of an AWS signature of version 4. A request names what it has signed and the signature
    in one of two places, the `Authorization` header or the query of a presigned URL; from there on
    the two forms take one path. -/

namespace Momo.SigV4

/-! ### Requests -/

/-- An `http.Request`, as far as it is signed. The path is decoded, the query parsed; the header is
    listed in the order in which the map is walked. -/
structure Request where
  method : Bytes
  host : Bytes
  path : Bytes
  query : OMap Bytes (List Bytes)
  header : List (Bytes × List Bytes)
  method_line : 10 ∉ method
  host_line : 10 ∉ host
  name_line : ∀ e ∈ header, 10 ∉ e.1
  value_line : ∀ e ∈ header, ∀ v ∈ e.2, 10 ∉ v
  query_values : ∀ e ∈ query.entries, e.2 ≠ []

namespace Request

def queryGet (req : Request) (key : Bytes) : Bytes := ((req.query.get key).bind List.head?).getD []

def headerGet (req : Request) (key : Bytes) : Bytes :=
  ((OMap.lookup key req.header).bind List.head?).getD []

end Request

/-- `sigV4Components`. -/
structure Components where
  accessKey : Bytes := []
  dateStamp : Bytes := []
  region : Bytes := []
  signedHeaders : Bytes := []
  signature : Bytes := []
  amzDate : Bytes := []
  deriving DecidableEq

/-- Access key, date stamp and region of `accessKey/dateStamp/region/service/aws4_request`. -/
def parseCredentialScope (cred : Bytes) : Except Err (Bytes × Bytes × Bytes) :=
  match cred.splitOn 47 with
  | accessKey :: dateStamp :: region :: _ :: _ :: _ => .ok (accessKey, dateStamp, region)
  | _ => .error (.sys .ebadmsg)

/-- One part of the `Authorization` header; the number counts the parts found. -/
def authPart (st : Components × ℕ) (part : Bytes) : Except Err (Components × ℕ) :=
  let (c, partsFound) := st
  let part := part.dropWhile (· = 32)
  if lit "Credential=" <+: part then do
    let (accessKey, dateStamp, region) ← parseCredentialScope (part.drop 11)
    return ({ c with accessKey := accessKey, dateStamp := dateStamp, region := region }, partsFound + 1)
  else if lit "SignedHeaders=" <+: part then
    .ok ({ c with signedHeaders := part.drop 14 }, partsFound + 1)
  else if lit "Signature=" <+: part then
    .ok ({ c with signature := part.drop 10 }, partsFound + 1)
  else .ok (c, partsFound)

def parseSigV4AuthHeader (authHeader : Bytes) : Except Err Components :=
  if lit "AWS4-HMAC-SHA256 " <+: authHeader then do
    let (c, partsFound) ← ((authHeader.drop 17).splitOn 44).foldlM authPart ({}, 0)
    if partsFound < 3 ∨ c.accessKey = [] ∨ c.signature = [] ∨ c.signedHeaders = [] then
      .error (.sys .ebadmsg)
    else return c
  else .error (.sys .ebadmsg)

def isPresignedSigV4 (req : Request) : Bool :=
  req.queryGet (lit "X-Amz-Algorithm") = lit "AWS4-HMAC-SHA256"

def parseSigV4QueryAuth (req : Request) : Option Components :=
  if isPresignedSigV4 req then
    match parseCredentialScope (req.queryGet (lit "X-Amz-Credential")) with
    | .error _ => none
    | .ok (accessKey, dateStamp, region) =>
      let c : Components := {
        accessKey := accessKey
        dateStamp := dateStamp
        region := region
        signedHeaders := req.queryGet (lit "X-Amz-SignedHeaders")
        signature := req.queryGet (lit "X-Amz-Signature")
        amzDate := req.queryGet (lit "X-Amz-Date") }
      if c.accessKey = [] ∨ c.signature = [] ∨ c.signedHeaders = [] ∨ c.amzDate = [] then none
      else some c
  else none

/-! ### Escaping -/

def runeCont (lo hi c : UInt8) : Bool := lo ≤ c && c ≤ hi

def runeLength : Bytes → ℕ
  | [] => 0
  | [_] => 1
  | [c, c1] => if 0xC2 ≤ c && c ≤ 0xDF && runeCont 0x80 0xBF c1 then 2 else 1
  | c :: c1 :: c2 :: rest =>
    if 0xC2 ≤ c && c ≤ 0xDF && runeCont 0x80 0xBF c1 then 2
    else if 0xE0 ≤ c && c ≤ 0xEF then
      let lo := if c = 0xE0 then 0xA0 else 0x80
      let hi := if c = 0xED then 0x9F else 0xBF
      if runeCont lo hi c1 && runeCont 0x80 0xBF c2 then 3 else 1
    else if 0xF0 ≤ c && c ≤ 0xF4 then
      let lo := if c = 0xF0 then 0x90 else 0x80
      let hi := if c = 0xF4 then 0x8F else 0xBF
      match rest with
      | c3 :: _ => if runeCont lo hi c1 && runeCont 0x80 0xBF c2 && runeCont 0x80 0xBF c3 then 4 else 1
      | [] => 1
    else 1

def runeCountLoop : ℕ → Bytes → ℕ
  | 0, _ => 0
  | _, [] => 0
  | fuel + 1, s => runeCountLoop fuel (s.drop (runeLength s)) + 1

def runeCount (s : Bytes) : ℕ := runeCountLoop s.length s

def unreserved (c : UInt8) : Bool :=
  (65 ≤ c && c ≤ 90) || (97 ≤ c && c ≤ 122) || (48 ≤ c && c ≤ 57) || c = 45 || c = 95 || c = 46 ||
    c = 126

/-- The digit `"0123456789ABCDEF"[n]`. -/
def upperHex (n : ℕ) : UInt8 := UInt8.ofNat (if n < 10 then 48 + n else 55 + n)

def escapeByte (encodeSlash : Bool) (c : UInt8) : Bytes :=
  if unreserved c || (!encodeSlash && c = 47) then [c]
  else [37, upperHex (c.toNat / 16), upperHex (c.toNat % 16)]

def sigV4Escape (s : Bytes) (encodeSlash : Bool) : Except Err Bytes :=
  if runeCount s > 1024 then
    .error (.wrap "sigV4 escape input length exceeds bounds (1024 characters): %w" [] (.sys .einval))
  else .ok (s.flatMap (escapeByte encodeSlash))

/-! ### The canonical request -/

def signatureParam : Bytes := lit "X-Amz-Signature"

/-- The parts `key=value` of one query parameter. -/
def canonicalEntry (e : Bytes × List Bytes) : Except Err (List Bytes) := do
  let encodedKey ← sigV4Escape e.1 true
  if e.2 = [] then return [encodedKey ++ [61]]
  else e.2.mapM fun v => do
    let encodedVal ← sigV4Escape v true
    return encodedKey ++ 61 :: encodedVal

/-- `buildCanonicalQueryString`; the keys of the map are taken in their order, without the
    signature. -/
def buildCanonicalQueryString (values : OMap Bytes (List Bytes)) : Except Err Bytes := do
  let parts ← (values.del signatureParam).entries.mapM canonicalEntry
  return List.intercalate [38] parts.flatten

def lowerByte (c : UInt8) : UInt8 := if 65 ≤ c ∧ c ≤ 90 then c + 32 else c

/-- `strings.EqualFold` for a header name, which is ASCII. Two characters beyond ASCII fold to a
    letter: U+017F to `s` and U+212A to `k`. -/
def equalFold : Bytes → Bytes → Bool
  | [], h => h = []
  | _ :: _, [] => false
  | a :: k, b :: h =>
    if lowerByte a = lowerByte b then equalFold k h
    else if lowerByte a = 115 ∧ b = 0xC5 ∧ h.head? = some 0xBF then equalFold k (h.drop 1)
    else if lowerByte a = 107 ∧ b = 0xE2 ∧ h.take 2 = [0x84, 0xAA] then equalFold k (h.drop 2)
    else false

def getCanonicalHeaderValue (req : Request) (h : Bytes) : Except Err Bytes :=
  if h = lit "host" then
    if req.host.length > 4096 then .error (.sys .ebadmsg) else .ok req.host
  else
    match req.header.find? fun e => equalFold e.1 h with
    | none => .error (.sys .enoent)
    | some e =>
      match e.2 with
      | [] => .ok []
      | v :: _ => if v.length > 4096 then .error (.sys .ebadmsg) else .ok v

def signedNames (s : Bytes) : List Bytes := (s.splitOn 59).filter (· ≠ [])

def parseSignedHeaders (s : Bytes) : Except Err (List Bytes) :=
  if (signedNames s).length > 16 then .error (.sys .ebadmsg) else .ok (signedNames s)

def headerLine (name val : Bytes) : Bytes := name ++ 58 :: val ++ [10]

def canonicalHeader (req : Request) (h : Bytes) : Except Err Bytes :=
  match getCanonicalHeaderValue req h with
  | .error e => .error (if e = .sys .enoent then .sys .ebadmsg else e)
  | .ok val => .ok (headerLine h (trimSpace val))

def buildCanonicalHeaders (req : Request) (signedHeaders : Bytes) : Except Err Bytes := do
  let headerNames ← parseSignedHeaders signedHeaders
  let lines ← (headerNames.insertionSort (· ≤ ·)).mapM (canonicalHeader req)
  return lines.flatten

def canonicalPath (path : Bytes) : Bytes := if path = [] then [47] else path

def buildCanonicalRequest (req : Request) (signedHeaders payloadHash : Bytes) : Except Err Bytes := do
  let canonicalURIEscaped ← sigV4Escape (canonicalPath req.path) false
  let canonicalQueryString ← buildCanonicalQueryString req.query
  let canonicalHeaders ← buildCanonicalHeaders req signedHeaders
  return req.method ++ 10 :: canonicalURIEscaped ++ 10 :: canonicalQueryString ++
    10 :: canonicalHeaders ++ 10 :: signedHeaders ++ 10 :: payloadHash

/-! ### Signing -/

variable [Sha256] [HmacSha256]

def deriveSigningKey (secretKey dateStamp region : Bytes) : Bytes :=
  let kDate := HmacSha256.mac (lit "AWS4" ++ secretKey) dateStamp
  let kRegion := HmacSha256.mac kDate region
  let kService := HmacSha256.mac kRegion (lit "s3")
  HmacSha256.mac kService (lit "aws4_request")

def credentialScope (dateStamp region : Bytes) : Bytes :=
  dateStamp ++ 47 :: region ++ lit "/s3/aws4_request"

def buildStringToSign (canonicalRequest amzDate dateStamp region : Bytes) : Bytes :=
  lit "AWS4-HMAC-SHA256\n" ++ amzDate ++ 10 :: credentialScope dateStamp region ++
    10 :: hashBytes canonicalRequest

def computeSignature (signingKey stringToSign : Bytes) : Bytes :=
  hexEncode (HmacSha256.mac signingKey stringToSign)

def verifySigV4SignatureWithPayload (req : Request) (c : Components) (secretKey payloadHash : Bytes) :
    Bool :=
  match buildCanonicalRequest req c.signedHeaders payloadHash with
  | .error _ => false
  | .ok canonicalRequest =>
    computeSignature (deriveSigningKey secretKey c.dateStamp c.region)
      (buildStringToSign canonicalRequest c.amzDate c.dateStamp c.region) = c.signature

/-- `time.Parse("20060102T150405Z", _)` in nanoseconds. The layout is digits, letters and an optional
    fraction, so a date it accepts is one line. -/
class DateParser where
  parse : Bytes → Option Int
  one_line : ∀ s t, parse s = some t → 10 ∉ s

variable [DateParser]

/-- `verifySigV4Timestamp` at time `now`; the skew is at most fifteen minutes. -/
def verifySigV4Timestamp (now : Int) (amzDate : Bytes) : Bool :=
  match DateParser.parse amzDate with
  | none => false
  | some t => |now - t| ≤ 15 * 60 * 1000000000

def verifySigV4Expiry (now : Int) (req : Request) : Bool :=
  let amzDate := req.queryGet (lit "X-Amz-Date")
  let expires := req.queryGet (lit "X-Amz-Expires")
  if amzDate = [] ∨ expires = [] then false
  else
    match DateParser.parse amzDate, parseInt decimalDigit 10 64 expires with
    | some signTime, some ttlSec =>
      if ttlSec ≤ 0 ∨ ttlSec > 86400 then false else now < signTime + ttlSec * 1000000000
    | _, _ => false

def s3UnsignedPayload : Bytes := lit "UNSIGNED-PAYLOAD"

def emptyStringSHA256 : Bytes := hashBytes []

def verifySigV4Signature (now : Int) (req : Request) (authHeader secretKey : Bytes) : Bool :=
  let payloadHash := req.headerGet (lit "X-Amz-Content-Sha256")
  if isPresignedSigV4 req then
    match parseSigV4QueryAuth req with
    | none => false
    | some c =>
      if verifySigV4Expiry now req then
        if payloadHash ≠ [] then verifySigV4SignatureWithPayload req c secretKey payloadHash
        else verifySigV4SignatureWithPayload req c secretKey s3UnsignedPayload ||
          verifySigV4SignatureWithPayload req c secretKey emptyStringSHA256
      else false
  else
    match parseSigV4AuthHeader authHeader with
    | .error _ => false
    | .ok c =>
      let amzDate := req.headerGet (lit "X-Amz-Date")
      if amzDate = [] then false
      else if verifySigV4Timestamp now amzDate then
        verifySigV4SignatureWithPayload req { c with amzDate := amzDate } secretKey
          (if payloadHash = [] then emptyStringSHA256 else payloadHash)
      else false

end Momo.SigV4
