import Weregopher.Digest
import Weregopher.Ids
import Weregopher.Lib.Checked
import Weregopher.Lib.OrderedMap
import Weregopher.Lib.Outcome
import Weregopher.Lib.PercentEncoding
import Weregopher.Lib.Utf8

/-! # The private origin of a package

Assets of an immutable package are served under one address of their own. A request is
cut down to its path, decoded once and looked up; nothing else is ever read. Reserving
memory is assumed to succeed.
-/
namespace Weregopher.Renderer
open Lib Lib.Bytes Lib.Checked Lib.Outcome Lib.PercentEncoding

structure PackageOriginLimits where
  (assets pathBytes assetBytes totalBytes urlBytes : Nat)

def PackageOriginLimits.g1Fixture : PackageOriginLimits where
  assets := 128
  pathBytes := 1024
  assetBytes := 4 * 1024 * 1024
  totalBytes := 16 * 1024 * 1024
  urlBytes := 4096

inductive PackageOriginError
  | invalidAssetPath
  | assetTooLarge (maximum actual : Nat)
  | emptyPackage
  | tooManyAssets (maximum actual : Nat)
  | duplicateAsset (path : String)
  | aggregateBytesOverflow
  | packageTooLarge (maximum actual : Nat)
  | unsupportedMethod
  | urlTooLong (maximum actual : Nat)
  | originMismatch
  | fragmentNotAllowed
  | invalidPercentEncoding
  | invalidUtf8Path
  deriving DecidableEq

abbrev Result (α : Type) := Except PackageOriginError α

def isControl (byte : UInt8) : Bool := byte < 0x20 || byte = 0x7f

def invalidSegment (segment : List Char) : Bool :=
  segment = [] || segment = ['.'] || segment = ['.', '.'] || (utf8Bytes (String.ofList segment)).any isControl

def validateAssetPath (path : String) (maximum : Nat) : Result Unit :=
  if path = "" ∨ path.utf8ByteSize > maximum then .error .invalidAssetPath
  else if path.toList.head? = some '/' ∨ path.toList.getLast? = some '/' ∨
      path.toList.any (['\\', '%', '?', '#', ':'].contains ·) then
    .error .invalidAssetPath
  else if (path.toList.splitOn '/').any invalidSegment then .error .invalidAssetPath
  else .ok ()

def extension (path : String) : String :=
  if '.' ∈ path.toList then String.ofList (path.toList.reverse.takeWhile (· ≠ '.')).reverse else ""

def mediaTypeFor (path : String) : String :=
  match extension path with
  | "html" | "htm" => "text/html; charset=utf-8"
  | "js" | "mjs" => "text/javascript; charset=utf-8"
  | "css" => "text/css; charset=utf-8"
  | "json" | "map" => "application/json; charset=utf-8"
  | "txt" => "text/plain; charset=utf-8"
  | "svg" => "image/svg+xml"
  | "png" => "image/png"
  | "jpg" | "jpeg" => "image/jpeg"
  | "gif" => "image/gif"
  | "webp" => "image/webp"
  | "ico" => "image/x-icon"
  | "wasm" => "application/wasm"
  | "woff2" => "font/woff2"
  | _ => "application/octet-stream"

/-- An asset may have been made under other limits than the package it is put into. -/
structure PackageAsset where
  (path mediaType : String)
  bytes : List UInt8
  digest : Sha256Digest
  path_valid : ∃ maximum, validateAssetPath path maximum = .ok ()

def PackageAsset.new (sha256 : Sha256) (path : String) (bytes : List UInt8)
    (limits : PackageOriginLimits) : Result PackageAsset :=
  match h : validateAssetPath path limits.pathBytes with
  | .error error => .error error
  | .ok () =>
    if bytes.length > limits.assetBytes then .error (.assetTooLarge limits.assetBytes bytes.length)
    else .ok ⟨path, mediaTypeFor path, bytes, sha256 bytes, ⟨limits.pathBytes, h⟩⟩

structure ImmutablePackage where
  assets : OrderedMap String PackageAsset
  limits : PackageOriginLimits
  keyed : ∀ entry ∈ assets.entries, entry.2.path = entry.1

abbrev AssetIndex := {assets : OrderedMap String PackageAsset // ∀ entry ∈ assets.entries, entry.2.path = entry.1}

def AssetIndex.insert (index : AssetIndex) (asset : PackageAsset) : AssetIndex where
  val := index.val.insert asset.path asset
  property entry hEntry := by
    rcases (mem_insertEntry index.val.inOrder).mp hEntry with rfl | ⟨hEntry, -⟩
    · rfl
    · exact index.property entry hEntry

def addAsset (limits : PackageOriginLimits) (state : Nat × AssetIndex) (asset : PackageAsset) :
    Result (Nat × AssetIndex) := do
  let (total, indexed) := state
  let total ← okOr .aggregateBytesOverflow (checkedAdd usizeMax total asset.bytes.length)
  if total > limits.totalBytes then throw (.packageTooLarge limits.totalBytes total)
  if (indexed.val.find? asset.path).isSome then throw (.duplicateAsset asset.path)
  return (total, indexed.insert asset)

def ImmutablePackage.new (assets : List PackageAsset) (limits : PackageOriginLimits) : Result ImmutablePackage := do
  if assets = [] then throw .emptyPackage
  if assets.length > limits.assets then throw (.tooManyAssets limits.assets assets.length)
  let (_, indexed) ← assets.foldlM (addAsset limits) (0, ⟨.empty, nofun⟩)
  return ⟨indexed.val, limits, indexed.property⟩

def hostFor (app : Uuid) : String :=
  "app-" ++ String.ofList (Sha256Digest.encodeHex (toBeBytes 16 app.toNat)) ++ ".weregopher.invalid"

structure PrivateOrigin where
  (host baseUrl : String)
  derived : ∃ app, host = hostFor app ∧ baseUrl = "https://" ++ host ++ "/"

def PrivateOrigin.forApp (app : Uuid) : PrivateOrigin where
  host := hostFor app
  baseUrl := "https://" ++ hostFor app ++ "/"
  derived := ⟨app, rfl, rfl⟩

def decodeHex (byte : UInt8) : Result Nat := okOr .invalidPercentEncoding (hexValue byte)

def refused (byte : UInt8) : Bool := [0x5c, 0x3f, 0x23, 0x3a].contains byte || isControl byte

def pushByte (maximum : Nat) (decoded : List UInt8) (encoded : Bool) (byte : UInt8) : Result (List UInt8) := do
  if (encoded && byte = separator) || refused byte then throw .invalidAssetPath
  if decoded.length ≥ maximum then throw .invalidAssetPath
  return decoded ++ [byte]

def escapedByte (high low : UInt8) : Result UInt8 := do
  let high ← decodeHex high
  let shifted ← okOr .invalidPercentEncoding (checkedMul 255 high 16)
  let low ← decodeHex low
  let value ← okOr .invalidPercentEncoding (checkedAdd 255 shifted low)
  return UInt8.ofNat value

def decodeBytes (maximum : Nat) : (decoded bytes : List UInt8) → Result (List UInt8)
  | decoded, [] => .ok decoded
  | decoded, byte :: rest =>
    if byte = percent then
      match rest with
      | high :: low :: rest => do
        let byte ← escapedByte high low
        let decoded ← pushByte maximum decoded true byte
        decodeBytes maximum decoded rest
      | _ => .error .invalidPercentEncoding
    else do
      let decoded ← pushByte maximum decoded false byte
      decodeBytes maximum decoded rest

def decodeRequestPath (encoded : String) (maximum : Nat) : Result String := do
  if encoded = "" then return "index.html"
  let decoded ← decodeBytes maximum [] (utf8Bytes encoded)
  let path ← okOr .invalidUtf8Path (String.fromUTF8? ⟨decoded.toArray⟩)
  validateAssetPath path maximum
  return path

namespace PrivateOrigin

def identitySerialized (origin : PrivateOrigin) : String :=
  String.ofList (origin.baseUrl.toList.reverse.dropWhile (· = '/')).reverse

def requestPath (origin : PrivateOrigin) (uri : String) (limits : PackageOriginLimits) : Result String := do
  if uri.utf8ByteSize > limits.urlBytes then throw (.urlTooLong limits.urlBytes uri.utf8ByteSize)
  if '#' ∈ uri.toList then throw .fragmentNotAllowed
  let remainder ← okOr .originMismatch (uri.toList.dropPrefix? origin.baseUrl.toList)
  decodeRequestPath (String.ofList (remainder.takeWhile (· ≠ '?'))) limits.pathBytes

end PrivateOrigin

structure PackageOriginResponse where
  statusCode : UInt16
  (reason mediaType etag : String)
  contentLength : Nat
  body : List UInt8
  deriving DecidableEq

def PackageOriginResponse.notFound : PackageOriginResponse :=
  ⟨404, "Not Found", "application/octet-stream", "", 0, []⟩

def etagFor (digest : Sha256Digest) : String :=
  "\"sha256-" ++ String.ofList (Sha256Digest.encodeHex digest.bytes.toList) ++ "\""

structure PackageOrigin where
  origin : PrivateOrigin
  package : ImmutablePackage

def PackageOrigin.serve (package : PackageOrigin) (method uri : String) : Result PackageOriginResponse := do
  let head ←
    match method with
    | "GET" => pure false
    | "HEAD" => pure true
    | _ => throw .unsupportedMethod
  let path ← package.origin.requestPath uri package.package.limits
  match package.package.assets.find? path with
  | none => return .notFound
  | some asset =>
    return ⟨200, "OK", asset.mediaType, etagFor asset.digest, asset.bytes.length, if head then [] else asset.bytes⟩

end Weregopher.Renderer
