/-
# The texts of the signature dump

The tables and string builders of `MyHook/utils/v1sigparse.cpp`.  A `std::string` is a
`String` with one character for each `char`; `char` is unsigned on both ABIs.
-/
import LiuHookWorld.V1SigTlv

namespace V1Sig

/-! ## Tag and OID tables -/

def tagNames : List (UInt32 × String) :=
  [(0x01, "BOOLEAN"), (0x02, "INTEGER"), (0x03, "BIT STRING"), (0x04, "OCTET STRING"),
   (0x05, "NULL"), (0x06, "OBJECT IDENTIFIER"), (0x07, "OBJECT DESCRIPTOR"),
   (0x08, "EXTERNAL"), (0x09, "REAL"), (0x0A, "ENUMERATED"), (0x0B, "EMBEDDED PDV"),
   (0x0C, "UTF8String"), (0x10, "SEQUENCE"), (0x11, "SET"), (0x12, "NumericString"),
   (0x13, "PrintableString"), (0x14, "T61String"), (0x15, "VideotexString"),
   (0x16, "IA5String"), (0x17, "UTCTime"), (0x18, "GeneralizedTime"),
   (0x19, "GraphicString"), (0x1A, "VisibleString"), (0x1B, "GeneralString"),
   (0x1C, "UniversalString"), (0x1E, "BMPString"), (0x20, "SEQUENCE OF"),
   (0x21, "SET OF"), (0x30, "SEQUENCE"), (0x31, "SET"),
   (0x60, "[APPLICATION 0]"), (0x61, "[APPLICATION 1]"),
   (0xA0, "[CONTEXT 0]"), (0xA1, "[CONTEXT 1]"), (0xA2, "[CONTEXT 2]"),
   (0xA3, "[CONTEXT 3]"), (0xA4, "[CONTEXT 4]"), (0xA5, "[CONTEXT 5]"),
   (0xA6, "[CONTEXT 6]"), (0xA7, "[CONTEXT 7]"), (0xA8, "[CONTEXT 8]"),
   (0xA9, "[CONTEXT 9]"), (0xAA, "[CONTEXT 10]"), (0xAB, "[CONTEXT 11]"),
   (0xAC, "[CONTEXT 12]"), (0xAD, "[CONTEXT 13]"), (0xAE, "[CONTEXT 14]"),
   (0xAF, "[CONTEXT 15]"),
   (0x80, "[PKCS7 CONTENT TYPE]"), (0x81, "[PKCS7 DATA]"),
   (0x82, "[PKCS7 SIGNED DATA]"), (0x83, "[PKCS7 CERTIFICATES]"),
   (0x84, "[PKCS7 SIGNER INFO]"), (0x85, "[PKCS7 CRL]")]

def algorithmOids : List (String × String) :=
  [("1.2.840.113549.1.1.1", "RSAENCRYPTION"),
   ("1.2.840.113549.1.1.4", "MD5WITHRSA"),
   ("1.2.840.113549.1.1.5", "SHA1WITHRSA"),
   ("1.2.840.113549.1.1.11", "SHA256WITHRSA"),
   ("1.2.840.113549.1.1.12", "SHA384WITHRSA"),
   ("1.2.840.113549.1.1.13", "SHA512WITHRSA"),
   ("1.2.840.113549.2.5", "MD5"), ("1.3.14.3.2.26", "SHA1"),
   ("2.16.840.1.101.3.4.2.1", "SHA256"), ("2.16.840.1.101.3.4.2.2", "SHA384"),
   ("2.16.840.1.101.3.4.2.3", "SHA512"),
   ("1.2.840.113549.1.9.16.1.1", "PKCS7-DATA"),
   ("1.2.840.113549.1.9.16.1.2", "PKCS7-SIGNED-DATA"),
   ("1.2.840.113549.1.9.16.1.4", "PKCS7-ENVELOPED-DATA"),
   ("1.2.840.113549.1.9.16.1.7", "PKCS7-DIGESTED-DATA"),
   ("1.2.840.113549.1.9.16.1.8", "PKCS7-ENCRYPTED-DATA"),
   ("1.2.840.113549.1.9.16.1.27", "ANDROID-APK-SIGNING-BLOCK"),
   ("1.2.840.113549.1.9.16.1.28", "ANDROID-APK-V2-SIGNATURE"),
   ("1.2.840.113549.1.9.16.1.29", "ANDROID-APK-V3-SIGNATURE"),
   ("1.2.840.113549.1.9.16.1.30", "ANDROID-APK-V4-SIGNATURE"),
   ("1.2.840.15245.7", "CUSTOM-EXTENSION"),
   ("1.2.840.113549.1.7.1", "PKCS7-DATA"),
   ("1.2.840.113549.1.7.2", "PKCS7-SIGNED-DATA"),
   ("1.2.840.113549.1.7.3", "PKCS7-ENVELOPED-DATA"),
   ("1.2.840.113549.1.7.5", "PKCS7-DIGESTED-DATA"),
   ("1.2.840.113549.1.7.6", "PKCS7-ENCRYPTED-DATA")]

/-! ## Values -/

/-- `isAsciiTag`. -/
def isAsciiTag (tag : UInt32) : Bool :=
  tag == 0x0C || tag == 0x13 || tag == 0x16 || tag == 0x1A || tag == 0x1E

/-- The `BMPString` loop of `parseAsciiValue`: two octets a unit, a last odd one ignored. -/
def bmpChars : List UInt8 → List Char
  | hi :: lo :: data =>
      let ch : UInt16 := hi.toUInt16 <<< 8 ||| lo.toUInt16
      (if ch < 128 then Char.ofNat ch.toNat else '?') :: bmpChars data
  | _ => []

/-- `parseAsciiValue`. -/
def parseAsciiValue (tag : UInt32) (data : List UInt8) : String :=
  if data.isEmpty then ""
  else if tag = 0x1E then String.ofList (bmpChars data)
  else
    String.ofList (data.map fun c => if c < 0x20 || c > 0x7E then '.' else Char.ofNat c.toNat)

/-- The loop variables of `parseOID`. -/
structure OidState where
  value : UInt64
  first : Bool
  oss : String
  deriving DecidableEq, Repr

/-- One octet of `parseOID`. -/
def oidStep (s : OidState) (byte : UInt8) : OidState :=
  let value := s.value <<< 7 ||| (byte &&& 0x7F).toUInt64
  if byte &&& 0x80 = 0 then
    if s.first then
      let x : UInt32 := (value / 40).toUInt32
      let y : UInt32 := (value % 40).toUInt32
      ⟨0, false, s.oss ++ toString x.toNat ++ "." ++ toString y.toNat⟩
    else ⟨0, false, s.oss ++ "." ++ toString value.toNat⟩
  else { s with value := value }

/-- `parseOID`. -/
def parseOID (data : List UInt8) : String :=
  if data.isEmpty then "" else (data.foldl oidStep ⟨0, true, ""⟩).oss

/-! ## Lines -/

/-- `std::hex << std::uppercase << std::setw(2) << std::setfill('0')`. -/
def hex2 (n : ℕ) : String :=
  String.ofList (((Nat.toDigits 16 n).map Char.toUpper).leftpad 2 '0')

/-- `std::string indent(depth * 2, ' ')`. -/
def indent (depth : ℕ) : String := String.ofList (List.replicate (depth * 2) ' ')

/-- The line for the tag of an element. -/
def tagLine (depth : ℕ) (T L : UInt32) (V : List UInt8) : String :=
  let tagName := (tagNames.lookup T).getD "UNKNOWN"
  let out := indent depth ++ "Tag: 0x" ++ hex2 T.toNat ++ " [" ++ tagName ++ "], Len: "
    ++ toString L.toNat
  if T = 0x06 ∧ 0 < L then
    let oid := parseOID V
    out ++ "  OID: " ++ oid ++ "  ALG: " ++ (algorithmOids.lookup oid).getD "UNKNOWN-ALG"
  else out

/-- The line for the value of an element that is not a container. -/
def valueLine (depth : ℕ) (T L : UInt32) (V : List UInt8) : String :=
  let valOut := indent depth ++ "  "
  if isAsciiTag T then valOut ++ "Text: \"" ++ parseAsciiValue T V ++ "\""
  else if L ≤ 1000 then
    valOut ++ "Value: " ++ String.join (V.map fun b => hex2 b.toNat ++ " ")
  else valOut ++ "Value: " ++ toString L.toNat ++ " bytes (skipped)"

/-- The lines `parseAndPrintNested` logs for one element, before those of its content. -/
def reportLines (depth : ℕ) (T L : UInt32) (V : List UInt8) : List String :=
  if isContainerTag T then [tagLine depth T L V]
  else if 0 < L then [tagLine depth T L V, valueLine depth T L V]
  else [tagLine depth T L V]

end V1Sig
