import Weregopher.Renderer.Origin

/-! # The asset an address stands for

`Names` says what the address of a path is, without a decoder: the base address of the
origin, an encoding of the path and perhaps a query. Requests are resolved by it, and
only paths that are `Canonical` are looked up.
-/
namespace Weregopher.Renderer
open Lib Lib.Bytes Lib.Checked Lib.Outcome Lib.PercentEncoding

theorem exists_mem_splitOn {c separator : Char} {chars : List Char} (h : c ∈ chars) (hSeparator : c ≠ separator) :
    ∃ segment ∈ chars.splitOn separator, c ∈ segment := by
  induction chars using (measure List.length).wf.induction with
  | h chars ih =>
    by_cases hSplit : separator ∈ chars
    · obtain ⟨front, back, rfl⟩ := List.append_of_mem hSplit
      rw [List.splitOn_append_cons_self]
      have hShorter : front.length < (front ++ separator :: back).length ∧
          back.length < (front ++ separator :: back).length := by
        simp only [List.length_append, List.length_cons]
        omega
      simp only [List.mem_append, List.mem_cons, hSeparator, false_or] at h
      rcases h with hFront | hBack
      · obtain ⟨segment, hSegment, hMem⟩ := ih front hShorter.1 hFront
        exact ⟨segment, List.mem_append_left _ hSegment, hMem⟩
      · obtain ⟨segment, hSegment, hMem⟩ := ih back hShorter.2 hBack
        exact ⟨segment, List.mem_append_right _ hSegment, hMem⟩
    · rw [List.splitOn_eq_singleton hSplit]
      exact ⟨chars, List.mem_singleton_self chars, h⟩

structure Canonical (path : String) : Prop where
  nonempty : path ≠ ""
  first : path.toList.head? ≠ some '/'
  last : path.toList.getLast? ≠ some '/'
  plain : ∀ c ∈ ['\\', '%', '?', '#', ':'], c ∉ path.toList
  segments : ∀ segment ∈ path.toList.splitOn '/', segment ≠ [] ∧ segment ≠ ['.'] ∧ segment ≠ ['.', '.']
  printable : ∀ segment ∈ path.toList.splitOn '/', ∀ byte ∈ utf8Bytes (String.ofList segment), isControl byte = false

theorem invalidSegment_eq_false {segment : List Char} :
    invalidSegment segment = false ↔ (segment ≠ [] ∧ segment ≠ ['.'] ∧ segment ≠ ['.', '.']) ∧
      ∀ byte ∈ utf8Bytes (String.ofList segment), isControl byte = false := by
  simp [invalidSegment, and_assoc]

variable {maximum : Nat} {path encoded : String}

theorem validateAssetPath_ok :
    validateAssetPath path maximum = .ok () ↔ path.utf8ByteSize ≤ maximum ∧ Canonical path := by
  have hPlain : path.toList.any (['\\', '%', '?', '#', ':'].contains ·) = true ↔
      ¬∀ c ∈ ['\\', '%', '?', '#', ':'], c ∉ path.toList := by
    rw [List.any_eq_true]
    simp only [List.contains_iff_mem, not_forall, not_not]
    exact ⟨fun ⟨c, hPath, hMark⟩ => ⟨c, hMark, hPath⟩, fun ⟨c, hMark, hPath⟩ => ⟨c, hPath, hMark⟩⟩
  have hSegments : (path.toList.splitOn '/').any invalidSegment = true ↔
      ¬∀ segment ∈ path.toList.splitOn '/', invalidSegment segment = false := by
    rw [List.any_eq_true]
    simp
  rw [validateAssetPath, ite_error_ok, ite_error_ok, ite_error_ok, hPlain, hSegments]
  simp only [not_or, not_not, Nat.not_lt, gt_iff_lt, and_true, invalidSegment_eq_false]
  constructor
  · rintro ⟨⟨hEmpty, hSize⟩, ⟨hFirst, hLast, hPlain⟩, hEach⟩
    exact ⟨hSize, hEmpty, hFirst, hLast, hPlain, fun s hs => (hEach s hs).1, fun s hs => (hEach s hs).2⟩
  · rintro ⟨hSize, h⟩
    exact ⟨⟨h.nonempty, hSize⟩, ⟨h.first, h.last, h.plain⟩, fun s hs => ⟨h.segments s hs, h.printable s hs⟩⟩

theorem PackageAsset.canonical (asset : PackageAsset) : Canonical asset.path := by
  obtain ⟨maximum, hValid⟩ := asset.path_valid
  exact (validateAssetPath_ok.mp hValid).2

theorem Canonical.not_refused (h : Canonical path) {byte : UInt8} (hByte : byte ∈ utf8Bytes path) :
    refused byte = false := by
  rw [← Bool.not_eq_true]
  intro hRefused
  have hChar : ∀ mark : Char, mark.toNat < 128 → byte = UInt8.ofNat mark.toNat → mark ∈ path.toList := by
    rintro mark hMark rfl
    have hSame : (UInt8.ofNat mark.toNat).toNat = mark.toNat := by
      rw [UInt8.toNat_ofNat']
      omega
    obtain ⟨c, hMem, hValue⟩ := (mem_utf8Bytes_ascii (by omega)).mp hByte
    obtain rfl : c = mark := Char.toNat_inj.mp (hValue.trans hSame)
    exact hMem
  simp only [refused, Bool.or_eq_true, List.contains_iff_mem, List.mem_cons, List.not_mem_nil, or_false] at hRefused
  rcases hRefused with (rfl | rfl | rfl | rfl) | hControl
  · exact h.plain '\\' (by decide) (hChar '\\' (by decide) rfl)
  · exact h.plain '?' (by decide) (hChar '?' (by decide) rfl)
  · exact h.plain '#' (by decide) (hChar '#' (by decide) rfl)
  · exact h.plain ':' (by decide) (hChar ':' (by decide) rfl)
  · -- a control character is no separator, so it lies in a segment
    have hRange : byte.toNat < 128 ∧ byte.toNat ≠ 47 := by
      simp only [isControl, Bool.or_eq_true, decide_eq_true_eq, UInt8.lt_iff_toNat_lt, ← UInt8.toNat_inj] at hControl
      have hNumbers : byte.toNat < 32 ∨ byte.toNat = 127 := hControl
      omega
    obtain ⟨c, hMem, hValue⟩ := (mem_utf8Bytes_ascii hRange.1).mp hByte
    have hSlash : c ≠ '/' := by
      rintro rfl
      exact hRange.2 hValue.symm
    obtain ⟨segment, hSegment, hInside⟩ := exists_mem_splitOn hMem hSlash
    have hEncoded : byte ∈ utf8Bytes (String.ofList segment) := by
      rw [mem_utf8Bytes_ascii hRange.1, String.toList_ofList]
      exact ⟨c, hInside, hValue⟩
    rw [h.printable segment hSegment byte hEncoded] at hControl
    cases hControl

section

variable {maximum : Nat} {decoded result : List UInt8}

theorem pushByte_ok {encoded : Bool} {byte : UInt8} :
    pushByte maximum decoded encoded byte = .ok result ↔
      (encoded = true → byte ≠ separator) ∧ refused byte = false ∧ decoded.length < maximum ∧
        decoded ++ [byte] = result := by
  rw [pushByte, guard_ok, guard_ok, pure_ok]
  simp [and_assoc]

theorem escapedByte_ok {high low byte : UInt8} : escapedByte high low = .ok byte ↔
      ∃ h l, hexValue high = some h ∧ hexValue low = some l ∧ byte.toNat = h * 16 + l := by
  simp only [escapedByte, decodeHex, bind_ok, okOr_ok, pure_ok, checkedMul_eq_some, checkedAdd_eq_some]
  constructor
  · rintro ⟨h, hHigh, _, ⟨_, rfl⟩, l, hLow, _, ⟨_, rfl⟩, rfl⟩
    refine ⟨h, l, hHigh, hLow, ?_⟩
    rw [UInt8.toNat_ofNat']
    omega
  · rintro ⟨h, l, hHigh, hLow, hValue⟩
    have hByte := byte.toNat_lt
    refine ⟨h, hHigh, _, ⟨by omega, rfl⟩, l, hLow, _, ⟨by omega, rfl⟩, ?_⟩
    rw [← hValue, UInt8.ofNat_toNat]

theorem decodeBytes_ok {encoded : List UInt8} : decodeBytes maximum decoded encoded = .ok result ↔
      ∃ bytes, Encodes encoded bytes ∧ (∀ byte ∈ bytes, refused byte = false) ∧
        (bytes = [] ∨ decoded.length + bytes.length ≤ maximum) ∧ decoded ++ bytes = result := by
  induction decoded, encoded using decodeBytes.induct with
  | case1 decoded =>
    rw [decodeBytes, Except.ok.injEq]
    constructor
    · rintro rfl
      exact ⟨[], .nil, by simp⟩
    · rintro ⟨bytes, hEncodes, -, -, rfl⟩
      rw [hEncodes.eq_nil, List.append_nil]
  | case2 decoded high low rest ih =>
    rw [decodeBytes, if_pos rfl]
    simp only [bind_ok, escapedByte_ok, pushByte_ok, ih]
    constructor
    · rintro ⟨byte, ⟨h, l, hHigh, hLow, hValue⟩, _, ⟨hSeparator, hByte, hRoom, rfl⟩,
        bytes, hEncodes, hBytes, hFits, rfl⟩
      refine ⟨byte :: bytes, .escaped hHigh hLow hValue (hSeparator trivial) hEncodes, ?_, Or.inr ?_, by simp⟩
      · exact List.forall_mem_cons.mpr ⟨hByte, hBytes⟩
      · rcases hFits with rfl | hFits
        · exact hRoom
        · simp only [List.length_append, List.length_cons, List.length_nil] at hFits ⊢
          omega
    · rintro ⟨_, hEncodes, hBytes, hFits, rfl⟩
      obtain ⟨_, _, byte, _, bytes, h, l, hRest, rfl, hHigh, hLow, hValue, hSeparator, hEncodes⟩ :=
        encodes_percent hEncodes
      cases hRest
      rw [List.forall_mem_cons] at hBytes
      simp only [reduceCtorEq, false_or, List.length_cons] at hFits
      refine ⟨byte, ⟨h, l, hHigh, hLow, hValue⟩, _, ⟨fun _ => hSeparator, hBytes.1, by omega, rfl⟩, ?_⟩
      refine ⟨bytes, hEncodes, hBytes.2, Or.inr ?_, by simp⟩
      simp only [List.length_append, List.length_cons, List.length_nil]
      omega
  | case3 decoded rest hShort =>
    have hNone : decodeBytes maximum decoded (percent :: rest) = .error .invalidPercentEncoding := by
      rw [decodeBytes.eq_def]
      dsimp only
      rw [if_pos rfl]
      split
      · exact absurd rfl (hShort _ _ _)
      · rfl
    rw [hNone]
    constructor
    · intro h
      cases h
    · rintro ⟨_, hEncodes, -⟩
      obtain ⟨_, _, _, _, _, _, _, hRest, -⟩ := encodes_percent hEncodes
      exact (hShort _ _ _ hRest).elim
  | case4 decoded byte rest hPercent ih =>
    rw [decodeBytes.eq_def]
    dsimp only
    rw [if_neg hPercent]
    simp only [bind_ok, pushByte_ok, ih]
    constructor
    · rintro ⟨_, ⟨-, hByte, hRoom, rfl⟩, bytes, hEncodes, hBytes, hFits, rfl⟩
      refine ⟨byte :: bytes, .raw hPercent hEncodes, List.forall_mem_cons.mpr ⟨hByte, hBytes⟩, Or.inr ?_, by simp⟩
      rcases hFits with rfl | hFits
      · exact hRoom
      · simp only [List.length_append, List.length_cons, List.length_nil] at hFits ⊢
        omega
    · rintro ⟨_, hEncodes, hBytes, hFits, rfl⟩
      obtain ⟨bytes, rfl, hRest⟩ := encodes_raw hPercent hEncodes
      rw [List.forall_mem_cons] at hBytes
      simp only [reduceCtorEq, false_or, List.length_cons] at hFits
      refine ⟨_, ⟨by simp, hBytes.1, by omega, rfl⟩, bytes, hRest, hBytes.2, Or.inr ?_, by simp⟩
      simp only [List.length_append, List.length_cons, List.length_nil]
      omega

end

theorem decodeRequestPath_ok (hEncoded : encoded ≠ "") : decodeRequestPath encoded maximum = .ok path ↔
      Encodes (utf8Bytes encoded) (utf8Bytes path) ∧ path.utf8ByteSize ≤ maximum ∧ Canonical path := by
  rw [decodeRequestPath, if_neg hEncoded]
  simp only [bind_ok, decodeBytes_ok, okOr_ok, fromUTF8?_eq_some, pure_ok, List.nil_append]
  constructor
  · rintro ⟨_, ⟨_, hEncodes, -, -, rfl⟩, _, rfl, _, hValid, rfl⟩
    exact ⟨hEncodes, validateAssetPath_ok.mp hValid⟩
  · rintro ⟨hEncodes, hValid⟩
    refine ⟨_, ⟨_, hEncodes, fun _ => hValid.2.not_refused, Or.inr ?_, rfl⟩, path, rfl, (),
      validateAssetPath_ok.mpr hValid, rfl⟩
    rw [length_utf8Bytes, List.length_nil, Nat.zero_add]
    exact hValid.1

def IsQuery (query : String) : Prop := query = "" ∨ query.toList.head? = some '?'

theorem exists_query (remainder : List Char) : '?' ∉ remainder.takeWhile (· ≠ '?') ∧
      ∃ query, remainder = remainder.takeWhile (· ≠ '?') ++ query ∧ (query = [] ∨ query.head? = some '?') := by
  induction remainder with
  | nil => exact ⟨List.not_mem_nil, [], rfl, Or.inl rfl⟩
  | cons first rest ih =>
    by_cases hFirst : first = '?'
    · subst hFirst
      exact ⟨by simp, '?' :: rest, by simp, Or.inr rfl⟩
    · obtain ⟨hMark, query, hRest, hQuery⟩ := ih
      rw [List.takeWhile_cons_of_pos (by simpa using hFirst)]
      refine ⟨?_, query, ?_, hQuery⟩
      · rw [List.mem_cons, not_or]
        exact ⟨Ne.symm hFirst, hMark⟩
      · rw [List.cons_append, ← hRest]

theorem takeWhile_query {query : String} (hEncoded : '?' ∉ encoded.toList) (hQuery : IsQuery query) :
    (encoded.toList ++ query.toList).takeWhile (· ≠ '?') = encoded.toList := by
  have hAll : ∀ c ∈ encoded.toList, decide (c ≠ '?') = true := by
    intro c hMem
    exact decide_eq_true fun hMark => hEncoded (hMark ▸ hMem)
  rw [List.takeWhile_append_of_pos hAll]
  rcases hQuery with rfl | hHead
  · simp
  · cases hList : query.toList with
    | nil => simp
    | cons first rest =>
      rw [hList, List.head?_cons, Option.some.injEq] at hHead
      simp [hHead]

/-- The address is the base address, the path with some bytes escaped and perhaps a query. The
base address alone names the index page. -/
def Names (origin : PrivateOrigin) (uri path : String) : Prop :=
  ∃ encoded query : String, uri = origin.baseUrl ++ encoded ++ query ∧ '?' ∉ encoded.toList ∧ IsQuery query ∧
    (encoded = "" ∧ path = "index.html" ∨ Encodes (utf8Bytes encoded) (utf8Bytes path))

theorem indexPage_canonical : Canonical "index.html" := by
  have hValid : validateAssetPath "index.html" 10 = .ok () := by decide
  exact (validateAssetPath_ok.mp hValid).2

namespace PrivateOrigin

variable {origin : PrivateOrigin} {uri path : String} {limits : PackageOriginLimits}

theorem hash_notMem_baseUrl (origin : PrivateOrigin) : '#' ∉ origin.baseUrl.toList := by
  have hDigit : ∀ n < 16, Lib.Decimal.hexDigit n ≠ '#' := by decide
  have hHex : ∀ bytes : List UInt8, '#' ∉ Sha256Digest.encodeHex bytes := by
    intro bytes hMem
    obtain ⟨byte, -, hMem⟩ := List.mem_flatMap.mp hMem
    have hByte := byte.toNat_lt
    simp only [List.mem_cons, List.not_mem_nil, or_false] at hMem
    rcases hMem with hHigh | hLow
    · exact hDigit (byte.toNat / 16) (by omega) hHigh.symm
    · exact hDigit (byte.toNat % 16) (by omega) hLow.symm
  obtain ⟨app, hHost, hBase⟩ := origin.derived
  rw [hBase, hHost, hostFor]
  simp [hHex]

theorem requestPath_ok (h : origin.requestPath uri limits = .ok path) : Names origin uri path ∧ Canonical path := by
  rw [requestPath, guard_ok, guard_ok, bind_ok] at h
  obtain ⟨-, -, remainder, hRemainder, hPath⟩ := h
  rw [okOr_ok, List.dropPrefix?_eq_some_iff] at hRemainder
  obtain ⟨base, hUri, hBase⟩ := hRemainder
  obtain ⟨hMark, query, hParts, hQuery⟩ := exists_query remainder
  have hAddress : uri = origin.baseUrl ++ String.ofList (remainder.takeWhile (· ≠ '?')) ++ String.ofList query := by
    apply String.toList_inj.mp
    rw [String.toList_append, String.toList_append, String.toList_ofList, String.toList_ofList, List.append_assoc,
      ← hParts, hUri, beq_iff_eq.mp hBase]
  have hIsQuery : IsQuery (String.ofList query) := by
    rw [IsQuery, String.toList_ofList]
    exact hQuery.imp_left fun hNil => by rw [hNil, String.ofList_nil]
  rw [← String.toList_ofList (l := remainder.takeWhile _)] at hMark
  by_cases hEmpty : String.ofList (remainder.takeWhile (· ≠ '?')) = ""
  · rw [hEmpty, decodeRequestPath, if_pos rfl, pure_ok] at hPath
    subst hPath
    exact ⟨⟨_, _, hAddress, hMark, hIsQuery, Or.inl ⟨hEmpty, rfl⟩⟩, indexPage_canonical⟩
  · obtain ⟨hEncodes, -, hCanonical⟩ := (decodeRequestPath_ok hEmpty).mp hPath
    exact ⟨⟨_, _, hAddress, hMark, hIsQuery, Or.inr hEncodes⟩, hCanonical⟩

theorem notMem_encoded {encoded : String} {mark : Char} (hEncodes : Encodes (utf8Bytes encoded) (utf8Bytes path))
    (hCanonical : Canonical path) (hMark : mark = '?' ∨ mark = '#') : mark ∉ encoded.toList := by
  intro hMem
  have hByte : UInt8.ofNat mark.toNat ∈ utf8Bytes encoded := by
    rcases hMark with rfl | rfl <;> exact (mem_utf8Bytes_ascii (by decide)).mpr ⟨_, hMem, by decide⟩
  have hPlain : UInt8.ofNat mark.toNat ∈ utf8Bytes path := by
    rcases hMark with rfl | rfl <;> exact hEncodes.mem_of_not_hex hByte (by decide) (by decide)
  have hRefused := hCanonical.not_refused hPlain
  rcases hMark with rfl | rfl <;> exact absurd hRefused (by decide)

theorem requestPath_encoded {encoded query other : String} (hEncodes : Encodes (utf8Bytes encoded) (utf8Bytes path))
    (hCanonical : Canonical path) (hQuery : IsQuery query) (hHash : '#' ∉ query.toList)
    (hUri : uri = origin.baseUrl ++ encoded ++ query) : origin.requestPath uri limits = .ok other ↔
      uri.utf8ByteSize ≤ limits.urlBytes ∧ path.utf8ByteSize ≤ limits.pathBytes ∧ path = other := by
  have hEmpty : encoded ≠ "" := by
    rintro rfl
    have hNil : utf8Bytes path = [] := hEncodes.eq_nil
    have hSize : path.utf8ByteSize = 0 := by rw [← length_utf8Bytes, hNil, List.length_nil]
    exact hCanonical.nonempty (String.utf8ByteSize_eq_zero_iff.mp hSize)
  have hList : uri.toList = origin.baseUrl.toList ++ (encoded.toList ++ query.toList) := by
    rw [hUri, String.toList_append, String.toList_append, List.append_assoc]
  have hMark : '#' ∉ uri.toList := by
    rw [hList, List.mem_append, List.mem_append, not_or, not_or]
    exact ⟨hash_notMem_baseUrl origin, notMem_encoded hEncodes hCanonical (Or.inr rfl), hHash⟩
  have hRemainder : uri.toList.dropPrefix? origin.baseUrl.toList = some (encoded.toList ++ query.toList) :=
    List.dropPrefix?_eq_some_iff.mpr ⟨_, hList, beq_self_eq_true _⟩
  rw [requestPath, guard_ok, guard_ok, bind_ok]
  simp only [hRemainder, okOr_ok, Option.some.injEq, exists_eq_left', hMark, not_false_eq_true, true_and, not_lt]
  rw [takeWhile_query (notMem_encoded hEncodes hCanonical (Or.inl rfl)) hQuery, String.ofList_toList,
    decodeRequestPath_ok hEmpty]
  constructor
  · rintro ⟨hSize, hOther, hBound, -⟩
    obtain rfl : path = other := utf8Bytes_injective (hEncodes.unique hOther)
    exact ⟨hSize, hBound, rfl⟩
  · rintro ⟨hSize, hBound, rfl⟩
    exact ⟨hSize, hEncodes, hBound, hCanonical⟩

end PrivateOrigin

theorem serve_get_ok {package : PackageOrigin} {uri : String} {response : PackageOriginResponse} :
    package.serve "GET" uri = .ok response ↔ ∃ path,
      package.origin.requestPath uri package.package.limits = .ok path ∧
        (package.package.assets.find? path = none ∧ response = .notFound ∨
          ∃ asset, package.package.assets.find? path = some asset ∧
            response = ⟨200, "OK", asset.mediaType, etagFor asset.digest, asset.bytes.length, asset.bytes⟩) := by
  have hServe : package.serve "GET" uri = package.origin.requestPath uri package.package.limits >>= _ := rfl
  rw [hServe, bind_ok]
  refine exists_congr fun path => and_congr_right fun _ => ?_
  cases package.package.assets.find? path with
  | none =>
    rw [pure_ok]
    simp [eq_comm]
  | some asset =>
    rw [pure_ok]
    simp [eq_comm]

theorem addresses_resolve_to_their_asset (package : PackageOrigin) (uri : String) :
    (∀ response, package.serve "GET" uri = .ok response → response.statusCode = 200 ∨ response.body ≠ [] →
      ∃ asset, (asset.path, asset) ∈ package.package.assets.entries ∧ Names package.origin uri asset.path ∧
        response.body = asset.bytes) ∧
    (∀ path, package.origin.requestPath uri package.package.limits = .ok path →
      Names package.origin uri path ∧ Canonical path) ∧
    ∀ asset encoded query, (asset.path, asset) ∈ package.package.assets.entries →
      Encodes (utf8Bytes encoded) (utf8Bytes asset.path) → IsQuery query → '#' ∉ query.toList →
      uri = package.origin.baseUrl ++ encoded ++ query → uri.utf8ByteSize ≤ package.package.limits.urlBytes →
      asset.path.utf8ByteSize ≤ package.package.limits.pathBytes →
      ∃ response, package.serve "GET" uri = .ok response ∧ response.statusCode = 200 ∧
        response.body = asset.bytes := by
  refine ⟨?_, fun path => PrivateOrigin.requestPath_ok, ?_⟩
  · intro response hServe hContent
    obtain ⟨path, hPath, ⟨-, rfl⟩ | ⟨asset, hFind, rfl⟩⟩ := serve_get_ok.mp hServe
    · exact absurd hContent (by decide)
    · have hEntry := OrderedMap.find?_eq_some.mp hFind
      obtain rfl : asset.path = path := package.package.keyed _ hEntry
      exact ⟨asset, hEntry, (PrivateOrigin.requestPath_ok hPath).1, rfl⟩
  · intro asset encoded query hEntry hEncodes hQuery hHash hUri hSize hLength
    have hPath := (PrivateOrigin.requestPath_encoded hEncodes asset.canonical hQuery hHash hUri).mpr
      ⟨hSize, hLength, rfl⟩
    exact ⟨_, serve_get_ok.mpr ⟨_, hPath, Or.inr ⟨asset, OrderedMap.find?_eq_some.mpr hEntry, rfl⟩⟩, rfl, rfl⟩

namespace Sample

def page : PackageAsset where
  path := "a/b.txt"
  mediaType := mediaTypeFor "a/b.txt"
  bytes := [104, 105]
  digest := ⟨Vector.replicate 32 0⟩
  path_valid := ⟨16, by decide⟩

def package : PackageOrigin where
  origin := .forApp 7
  package :=
    { assets := OrderedMap.empty.insert "a/b.txt" page
      limits := .g1Fixture
      keyed := by simp [OrderedMap.insert, OrderedMap.empty, insertEntry, page] }

def address : String := package.origin.baseUrl ++ "%61/%62.tx%74" ++ "?v=1"

theorem encodes_path : Encodes (utf8Bytes "%61/%62.tx%74") (utf8Bytes "a/b.txt") :=
  .escaped (h := 6) (l := 1) (by decide) (by decide) (by decide) (by decide) <| .raw (by decide) <|
    .escaped (h := 6) (l := 2) (by decide) (by decide) (by decide) (by decide) <| .raw (by decide) <|
    .raw (by decide) <| .raw (by decide) <|
    .escaped (h := 7) (l := 4) (by decide) (by decide) (by decide) (by decide) .nil

theorem escaped_address_resolves :
    (∃ response, package.serve "GET" address = .ok response ∧ response.statusCode = 200 ∧
      response.body = [104, 105]) ∧
    ∀ response, package.serve "GET" address = .ok response → response.statusCode = 200 →
      Names package.origin address "a/b.txt" := by
  obtain ⟨hContent, hCanonical, hResolves⟩ := addresses_resolve_to_their_asset package address
  have hEntry : (page.path, page) ∈ package.package.assets.entries := List.mem_singleton_self _
  refine ⟨hResolves page "%61/%62.tx%74" "?v=1" hEntry encodes_path (Or.inr (by decide)) (by decide) rfl
    (by decide +kernel) (by decide), ?_⟩
  intro response hServe hStatus
  obtain ⟨asset, hAsset, hNames, -⟩ := hContent response hServe (Or.inl hStatus)
  obtain ⟨-, rfl⟩ := Prod.mk.inj (List.mem_singleton.mp hAsset)
  exact hNames

end Sample

end Weregopher.Renderer
