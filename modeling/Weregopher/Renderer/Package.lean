import Weregopher.Renderer.Resolve

/-! # What an accepted package serves

A package bounds its assets together. Each of them was bounded by the limits it was made under,
which need not be those of the package, and the length of an address counts the base address.
-/
namespace Weregopher.Renderer

open Lib Lib.Bytes Lib.Checked Lib.Outcome Lib.PercentEncoding ImmutablePackage PrivateOrigin

def PackageOriginLimits.new (assets pathBytes assetBytes totalBytes urlBytes : Nat) : Option PackageOriginLimits :=
  if assets = 0 ∨ pathBytes = 0 ∨ assetBytes = 0 ∨ totalBytes = 0 ∨ urlBytes = 0 ∨ assetBytes > totalBytes ∨
      pathBytes > urlBytes then
    none
  else some ⟨assets, pathBytes, assetBytes, totalBytes, urlBytes⟩

def PrivateOrigin.entryUrl (origin : PrivateOrigin) (path : String) : Result String := do
  validateAssetPath path 4096
  return origin.baseUrl ++ path

variable {limits : PackageOriginLimits} {assets : List PackageAsset} {package : ImmutablePackage}

/-! ## Building a package -/

structure Indexed (limits : PackageOriginLimits) (assets : List PackageAsset) (state : Nat × AssetIndex) : Prop where
  entries : state.2.val.entries.Perm (assets.map fun asset => (asset.path, asset))
  total : state.1 = (assets.map fun asset => asset.bytes.length).sum
  bounded : state.1 ≤ limits.totalBytes

variable {asset : PackageAsset}

theorem Indexed.add {state next : Nat × AssetIndex} (h : Indexed limits assets state)
    (hAdd : addAsset limits state asset = .ok next) : Indexed limits (assets ++ [asset]) next := by
  obtain ⟨total, indexed⟩ := state
  simp only [addAsset, bind_ok, okOr_ok, checkedAdd_eq_some, guard_ok, pure_ok, not_lt, Bool.not_eq_true,
    Option.isSome_eq_false_iff, Option.isNone_iff_eq_none] at hAdd
  obtain ⟨_, ⟨-, rfl⟩, hTotal, hNew, rfl⟩ := hAdd
  have hOther : ∀ entry ∈ indexed.val.entries, entry.1 ≠ asset.path := by
    intro entry hEntry hSame
    have hFound : indexed.val.find? entry.1 = some entry.2 := OrderedMap.find?_eq_some.mpr hEntry
    rw [hSame, hNew] at hFound
    cases hFound
  refine ⟨?_, ?_, hTotal⟩
  · rw [List.map_append]
    exact ((insertEntry_perm hOther).trans (h.entries.cons _)).trans (List.perm_append_singleton _ _).symm
  · rw [List.map_append, List.sum_append, ← h.total]
    simp

theorem Indexed.run {front : List PackageAsset} {state last : Nat × AssetIndex} (h : Indexed limits front state)
    (hRun : assets.foldlM (addAsset limits) state = .ok last) : Indexed limits (front ++ assets) last := by
  induction assets generalizing front state with
  | nil =>
    rw [List.foldlM_nil, pure_ok] at hRun
    rwa [List.append_nil, ← hRun]
  | cons asset rest ih =>
    rw [List.foldlM_cons, bind_ok] at hRun
    obtain ⟨next, hNext, hRest⟩ := hRun
    rw [List.append_cons]
    exact ih (h.add hNext) hRest

structure Accepted (assets : List PackageAsset) (limits : PackageOriginLimits) (package : ImmutablePackage) : Prop where
  limits_eq : package.limits = limits
  count : assets.length ≤ limits.assets
  entries : package.assets.entries.Perm (assets.map fun asset => (asset.path, asset))
  total : (assets.map fun asset => asset.bytes.length).sum ≤ limits.totalBytes

theorem accepted_of_new (h : new assets limits = .ok package) : Accepted assets limits package := by
  simp only [new, guard_ok, bind_ok, pure_ok, not_lt] at h
  obtain ⟨-, hCount, ⟨total, indexed⟩, hRun, rfl⟩ := h
  have hStart : Indexed limits [] (0, ⟨.empty, by rintro _ ⟨⟩⟩) :=
    ⟨List.Perm.refl _, rfl, Nat.zero_le _⟩
  have hIndexed := hStart.run hRun
  rw [List.nil_append] at hIndexed
  exact ⟨rfl, hCount, hIndexed.entries, hIndexed.total ▸ hIndexed.bounded⟩

theorem PackageAsset.new_isOk {sha256 : Sha256} :
    (PackageAsset.new sha256 asset.path asset.bytes limits).isOk = true ↔
      asset.path.utf8ByteSize ≤ limits.pathBytes ∧ asset.bytes.length ≤ limits.assetBytes := by
  have hPath : validateAssetPath asset.path limits.pathBytes = .ok () ↔
      asset.path.utf8ByteSize ≤ limits.pathBytes := by
    rw [validateAssetPath_ok]
    exact and_iff_left asset.canonical
  rw [← hPath, PackageAsset.new]
  split
  · next hError => simp [hError, Except.isOk, Except.toBool]
  · next hOk =>
    split_ifs with hLarge
    · simp [Except.isOk, Except.toBool, hLarge]
    · simp [Except.isOk, Except.toBool, hOk, Nat.le_of_not_lt hLarge]

theorem accepted_assets_within_limits_iff (sha256 : Sha256) (assets : List PackageAsset)
    (limits : PackageOriginLimits) (package : ImmutablePackage)
    (hNew : new assets limits = .ok package) :
    package.limits = limits ∧ package.assets.entries.length ≤ limits.assets ∧
      (package.assets.entries.map fun entry => entry.2.bytes.length).sum ≤ limits.totalBytes ∧
      ((∀ entry ∈ package.assets.entries,
          entry.2.path.utf8ByteSize ≤ limits.pathBytes ∧ entry.2.bytes.length ≤ limits.assetBytes) ↔
        ∀ asset ∈ assets, (PackageAsset.new sha256 asset.path asset.bytes limits).isOk = true) := by
  have h := accepted_of_new hNew
  refine ⟨h.limits_eq, ?_, ?_, ?_⟩
  · rw [h.entries.length_eq, List.length_map]
    exact h.count
  · rw [(h.entries.map _).sum_nat, List.map_map]
    exact h.total
  · simp [h.entries.mem_iff, PackageAsset.new_isOk]

namespace Sample

def pageDigest : Sha256Digest := .ofNat 0x8f434346648f6b96df89dda901c5176b10a6d83961dd3c1ac88b59b2dc327aa4

def pageLimits : PackageOriginLimits := ⟨1, 7, 2, 2, 71⟩

end Sample

/-- Two bytes under a limit of one: they were accepted under the limits of another package. -/
theorem package_holds_larger_asset :
    ∃ limits asset package, PackageOriginLimits.new 1 7 1 2 100 = some limits ∧
      PackageAsset.new (fun _ => Sample.pageDigest) "a/b.txt" [104, 105] .g1Fixture = .ok asset ∧
      new [asset] limits = .ok package ∧
      ∃ entry ∈ package.assets.entries, limits.assetBytes < entry.2.bytes.length := by
  refine ⟨_, _, _, rfl, rfl, rfl, _, List.mem_singleton_self _, ?_⟩
  decide

theorem small_asset_within_limits : ∃ package, new [Sample.page] Sample.pageLimits = .ok package ∧
      ∀ entry ∈ package.assets.entries, entry.2.path.utf8ByteSize ≤ 7 ∧ entry.2.bytes.length ≤ 2 := by
  refine ⟨_, rfl, ?_⟩
  apply (accepted_assets_within_limits_iff (fun _ => Sample.pageDigest) [Sample.page] Sample.pageLimits _ rfl).2.2.2.mpr
  intro asset hAsset
  rw [List.mem_singleton.mp hAsset]
  decide

/-! ## Addresses of assets -/

def Serves (package : PackageOrigin) (uri : String) (asset : PackageAsset) : Prop :=
  ∃ response, package.serve "GET" uri = .ok response ∧ response.statusCode = 200 ∧ response.body = asset.bytes

theorem encodes_path_self (asset : PackageAsset) : Encodes (utf8Bytes asset.path) (utf8Bytes asset.path) := by
  apply encodes_self
  rintro byte hByte rfl
  obtain ⟨c, hMem, hValue⟩ := (mem_utf8Bytes_ascii (by decide)).mp hByte
  obtain rfl : c = '%' := Char.toNat_inj.mp hValue
  exact asset.canonical.plain '%' (by decide) hMem

theorem serves_iff {origin : PrivateOrigin} {encoded : String}
    (hAsset : (asset.path, asset) ∈ package.assets.entries)
    (hEncodes : Encodes (utf8Bytes encoded) (utf8Bytes asset.path)) :
    Serves ⟨origin, package⟩ (origin.baseUrl ++ encoded) asset ↔
      (origin.baseUrl ++ encoded).utf8ByteSize ≤ package.limits.urlBytes ∧
        asset.path.utf8ByteSize ≤ package.limits.pathBytes := by
  have hPath (other : String) : origin.requestPath (origin.baseUrl ++ encoded) package.limits = .ok other ↔
      (origin.baseUrl ++ encoded).utf8ByteSize ≤ package.limits.urlBytes ∧
        asset.path.utf8ByteSize ≤ package.limits.pathBytes ∧ asset.path = other :=
    requestPath_encoded hEncodes asset.canonical (Or.inl rfl) (by simp) String.append_empty.symm
  constructor
  · rintro ⟨response, hServe, -⟩
    obtain ⟨path, hFound, -⟩ := serve_get_ok.mp hServe
    obtain ⟨hSize, hLength, -⟩ := (hPath path).mp hFound
    exact ⟨hSize, hLength⟩
  · rintro ⟨hSize, hLength⟩
    exact ⟨_, serve_get_ok.mpr ⟨_, (hPath asset.path).mpr ⟨hSize, hLength, rfl⟩,
      Or.inr ⟨asset, OrderedMap.find?_eq_some.mpr hAsset, rfl⟩⟩, rfl, rfl⟩

theorem assets_are_served_iff_their_address_fits (app : Uuid) (assets : List PackageAsset)
    (limits : PackageOriginLimits) (package : ImmutablePackage)
    (hNew : new assets limits = .ok package) : ∀ asset ∈ assets,
      (∀ encoded, Encodes (utf8Bytes encoded) (utf8Bytes asset.path) →
        (Serves ⟨.forApp app, package⟩ ((forApp app).baseUrl ++ encoded) asset ↔
          ((forApp app).baseUrl ++ encoded).utf8ByteSize ≤ limits.urlBytes ∧
            asset.path.utf8ByteSize ≤ limits.pathBytes)) ∧
      ∀ uri, (forApp app).entryUrl asset.path = .ok uri →
        (Serves ⟨.forApp app, package⟩ uri asset ↔
          uri.utf8ByteSize ≤ limits.urlBytes ∧ asset.path.utf8ByteSize ≤ limits.pathBytes) := by
  intro asset hAsset
  have h := accepted_of_new hNew
  have hEntry : (asset.path, asset) ∈ package.assets.entries :=
    h.entries.mem_iff.mpr (List.mem_map.mpr ⟨asset, hAsset, rfl⟩)
  rw [← h.limits_eq]
  refine ⟨fun encoded hEncodes => serves_iff hEntry hEncodes, ?_⟩
  intro uri hUri
  rw [entryUrl, bind_ok] at hUri
  obtain ⟨-, -, hUri⟩ := hUri
  rw [← pure_ok.mp hUri]
  exact serves_iff hEntry (encodes_path_self asset)

/-- A path of seven bytes under limits that allow seven bytes for it and seventy for its address. -/
theorem page_is_not_served : ∃ limits asset package, PackageOriginLimits.new 1 7 2 2 70 = some limits ∧
      PackageAsset.new (fun _ => Sample.pageDigest) "a/b.txt" [104, 105] limits = .ok asset ∧
      new [asset] limits = .ok package ∧
      ∃ uri, (forApp 7).entryUrl "a/b.txt" = .ok uri ∧
        PackageOrigin.serve ⟨.forApp 7, package⟩ "GET" uri = .error (.urlTooLong 70 71) := by
  refine ⟨_, _, _, rfl, rfl, rfl, _, rfl, ?_⟩
  decide +kernel

theorem page_is_served : ∃ package uri, new [Sample.page] Sample.pageLimits = .ok package ∧
      (forApp 7).entryUrl Sample.page.path = .ok uri ∧ Serves ⟨.forApp 7, package⟩ uri Sample.page := by
  refine ⟨_, _, rfl, rfl, ?_⟩
  apply ((assets_are_served_iff_their_address_fits 7 [Sample.page] Sample.pageLimits _ rfl Sample.page
    (List.mem_singleton_self _)).2 _ rfl).mpr
  decide +kernel

end Weregopher.Renderer
