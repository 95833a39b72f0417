import Mathlib

/-! # Case mappings of Unicode

The simple upper case of a code point and the lower case of a text, by the tables of Unicode 17. In lower
case a letter may become two, and a sigma that ends a word has a letter of its own.
-/
namespace Lib.CaseMapping

def runs : List (Nat × Nat × Nat) :=
  [(0x41, 0x61, 26), (0xc0, 0xe0, 23), (0xd8, 0xf8, 7), (0x189, 0x256, 2), (0x1b1, 0x28a, 2), (0x388, 0x3ad, 3),
   (0x38e, 0x3cd, 2), (0x391, 0x3b1, 17), (0x3a3, 0x3c3, 9), (0x3fd, 0x37b, 3), (0x400, 0x450, 16), (0x410, 0x430, 32),
   (0x531, 0x561, 38), (0x10a0, 0x2d00, 38), (0x13a0, 0xab70, 80), (0x13f0, 0x13f8, 6), (0x1c90, 0x10d0, 43),
   (0x1cbd, 0x10fd, 3), (0x1f08, 0x1f00, 8), (0x1f18, 0x1f10, 6), (0x1f28, 0x1f20, 8), (0x1f38, 0x1f30, 8),
   (0x1f48, 0x1f40, 6), (0x1f68, 0x1f60, 8), (0x1f88, 0x1f80, 8), (0x1f98, 0x1f90, 8), (0x1fa8, 0x1fa0, 8),
   (0x1fb8, 0x1fb0, 2), (0x1fba, 0x1f70, 2), (0x1fc8, 0x1f72, 4), (0x1fd8, 0x1fd0, 2), (0x1fda, 0x1f76, 2),
   (0x1fe8, 0x1fe0, 2), (0x1fea, 0x1f7a, 2), (0x1ff8, 0x1f78, 2), (0x1ffa, 0x1f7c, 2), (0x2160, 0x2170, 16),
   (0x24b6, 0x24d0, 26), (0x2c00, 0x2c30, 48), (0x2c7e, 0x23f, 2), (0xff21, 0xff41, 26), (0x10400, 0x10428, 40),
   (0x104b0, 0x104d8, 36), (0x10570, 0x10597, 11), (0x1057c, 0x105a3, 15), (0x1058c, 0x105b3, 7),
   (0x10594, 0x105bb, 2), (0x10c80, 0x10cc0, 51), (0x10d50, 0x10d70, 22), (0x118a0, 0x118c0, 32),
   (0x16e40, 0x16e60, 32), (0x16ea0, 0x16ebb, 25), (0x1e900, 0x1e922, 34)]

/-- Runs in which upper and lower case alternate. -/
def alternating : List (Nat × Nat) :=
  [(0x100, 24), (0x132, 3), (0x139, 8), (0x14a, 23), (0x179, 3), (0x182, 2), (0x187, 1), (0x18b, 1), (0x191, 1),
   (0x198, 1), (0x1a0, 3), (0x1a7, 1), (0x1ac, 1), (0x1af, 1), (0x1b3, 2), (0x1b8, 1), (0x1bc, 1), (0x1cd, 8),
   (0x1de, 9), (0x1f4, 1), (0x1f8, 20), (0x222, 9), (0x23b, 1), (0x241, 1), (0x246, 5), (0x370, 2), (0x376, 1),
   (0x3d8, 12), (0x3f7, 1), (0x3fa, 1), (0x460, 17), (0x48a, 27), (0x4c1, 7), (0x4d0, 48), (0x1c89, 1), (0x1e00, 75),
   (0x1ea0, 48), (0x2183, 1), (0x2c60, 1), (0x2c67, 3), (0x2c72, 1), (0x2c75, 1), (0x2c80, 50), (0x2ceb, 2),
   (0x2cf2, 1), (0xa640, 23), (0xa680, 14), (0xa722, 7), (0xa732, 31), (0xa779, 2), (0xa77e, 5), (0xa78b, 1),
   (0xa790, 2), (0xa796, 10), (0xa7b4, 8), (0xa7c7, 2), (0xa7cc, 8), (0xa7f5, 1)]

def pairs : List (Nat × Nat) :=
  [(0x178, 0xff), (0x181, 0x253), (0x186, 0x254), (0x18e, 0x1dd), (0x18f, 0x259), (0x190, 0x25b), (0x193, 0x260),
   (0x194, 0x263), (0x196, 0x269), (0x197, 0x268), (0x19c, 0x26f), (0x19d, 0x272), (0x19f, 0x275), (0x1a6, 0x280),
   (0x1a9, 0x283), (0x1ae, 0x288), (0x1b7, 0x292), (0x1c4, 0x1c6), (0x1c7, 0x1c9), (0x1ca, 0x1cc), (0x1f1, 0x1f3),
   (0x1f6, 0x195), (0x1f7, 0x1bf), (0x220, 0x19e), (0x23a, 0x2c65), (0x23d, 0x19a), (0x23e, 0x2c66), (0x243, 0x180),
   (0x244, 0x289), (0x245, 0x28c), (0x37f, 0x3f3), (0x386, 0x3ac), (0x38c, 0x3cc), (0x3cf, 0x3d7), (0x3f9, 0x3f2),
   (0x4c0, 0x4cf), (0x10c7, 0x2d27), (0x10cd, 0x2d2d), (0x1f59, 0x1f51), (0x1f5b, 0x1f53), (0x1f5d, 0x1f55),
   (0x1f5f, 0x1f57), (0x1fbc, 0x1fb3), (0x1fcc, 0x1fc3), (0x1fec, 0x1fe5), (0x1ffc, 0x1ff3), (0x2132, 0x214e),
   (0x2c62, 0x26b), (0x2c63, 0x1d7d), (0x2c64, 0x27d), (0x2c6d, 0x251), (0x2c6e, 0x271), (0x2c6f, 0x250),
   (0x2c70, 0x252), (0xa77d, 0x1d79), (0xa78d, 0x265), (0xa7aa, 0x266), (0xa7ab, 0x25c), (0xa7ac, 0x261),
   (0xa7ad, 0x26c), (0xa7ae, 0x26a), (0xa7b0, 0x29e), (0xa7b1, 0x287), (0xa7b2, 0x29d), (0xa7b3, 0xab53),
   (0xa7c4, 0xa794), (0xa7c5, 0x282), (0xa7c6, 0x1d8e), (0xa7cb, 0x264), (0xa7dc, 0x19b)]

/-- Upper, title and lower case. -/
def titles : List (Nat × Nat × Nat) :=
  [(0x1c4, 0x1c5, 0x1c6), (0x1c7, 0x1c8, 0x1c9), (0x1ca, 0x1cb, 0x1cc), (0x1f1, 0x1f2, 0x1f3)]

/-- Letters whose lower case has another upper case. -/
def lowerStrays : List (Nat × Nat) :=
  [(0x3f4, 0x3b8), (0x1e9e, 0xdf), (0x2126, 0x3c9), (0x212a, 0x6b), (0x212b, 0xe5)]

/-- Letters whose upper case has another lower case, each after its upper case. -/
def upperStrays : List (Nat × Nat) :=
  [(0x39c, 0xb5), (0x49, 0x131), (0x53, 0x17f), (0x399, 0x345), (0x3a3, 0x3c2), (0x392, 0x3d0), (0x398, 0x3d1),
   (0x3a6, 0x3d5), (0x3a0, 0x3d6), (0x39a, 0x3f0), (0x3a1, 0x3f1), (0x395, 0x3f5), (0x412, 0x1c80), (0x414, 0x1c81),
   (0x41e, 0x1c82), (0x421, 0x1c83), (0x422, 0x1c84), (0x422, 0x1c85), (0x42a, 0x1c86), (0x462, 0x1c87),
   (0xa64a, 0x1c88), (0x1e60, 0x1e9b), (0x399, 0x1fbe)]

/-- The letters that have both cases, upper case first. -/
def letters : List (Nat × Nat) :=
  runs.flatMap (fun (upper, lower, count) => (List.range count).map fun k => (upper + k, lower + k)) ++
    alternating.flatMap (fun (upper, count) => (List.range count).map fun k => (upper + 2 * k, upper + 2 * k + 1)) ++
      pairs

def upperTable : List (Nat × Nat) := letters ++ titles.map (fun letter => (letter.1, letter.2.1)) ++ upperStrays

def lowerTable : List (Nat × Nat) := letters ++ titles.map Prod.snd ++ lowerStrays

def simpleUpper (n : Nat) : Nat := (upperTable.find? (·.2 = n)).elim n Prod.fst

def lower (n : Nat) : List Nat :=
  if n = 0x130 then [0x69, 0x307] else [(lowerTable.find? (·.1 = n)).elim n Prod.snd]

def distinctFrom (seen : Nat) : List Nat → Bool
  | [] => true
  | n :: rest => !seen.testBit n && distinctFrom (seen ||| 1 <<< n) rest

theorem distinctFrom_spec {seen : Nat} {ns : List Nat} (h : distinctFrom seen ns = true) :
    ns.Nodup ∧ ∀ n ∈ ns, seen.testBit n = false := by
  induction ns generalizing seen with
  | nil => simp
  | cons n rest ih =>
    rw [distinctFrom, Bool.and_eq_true, Bool.not_eq_true'] at h
    obtain ⟨hRest, hSeen⟩ := ih h.2
    simp only [Nat.testBit_or, Bool.or_eq_false_iff] at hSeen
    have hHead : n ∉ rest := fun hMem => by simpa using (hSeen n hMem).2
    exact ⟨List.nodup_cons.mpr ⟨hHead, hRest⟩, List.forall_mem_cons.mpr ⟨h.1, fun m hm => (hSeen m hm).1⟩⟩

/-- No letter has two lower cases, and no lower-case letter has another. -/
theorem nodup_letters : (0x130 :: (lowerTable.map Prod.fst ++ letters.map Prod.snd)).Nodup :=
  (@distinctFrom_spec 0 _ (by decide +kernel)).1

theorem lower_of_titles : ∀ title ∈ titles, lower title.1 = lower title.2.1 := by decide +kernel

theorem find?_of_mem {table : List (Nat × Nat)} {entry : Nat × Nat} (h : (table.map Prod.fst).Nodup)
    (hMem : entry ∈ table) : table.find? (·.1 = entry.1) = some entry := by
  cases hFind : table.find? (·.1 = entry.1) with
  | none => simpa using List.find?_eq_none.mp hFind entry hMem
  | some found =>
    have hKey : found.1 = entry.1 := by simpa using List.find?_some hFind
    rw [List.inj_on_of_nodup_map h (List.mem_of_find?_eq_some hFind) hMem hKey]

theorem lower_of_letters {letter : Nat × Nat} (h : letter ∈ letters) : lower letter.1 = lower letter.2 := by
  obtain ⟨hDotted, hNodup⟩ := List.nodup_cons.mp nodup_letters
  obtain ⟨hKeys, -, hApart⟩ := List.nodup_append'.mp hNodup
  have hMem : letter ∈ lowerTable := List.mem_append_left _ (List.mem_append_left _ h)
  have hLower : letter.2 ∈ letters.map Prod.snd := List.mem_map_of_mem h
  have hNone : lowerTable.find? (·.1 = letter.2) = none := by
    rw [List.find?_eq_none]
    intro entry hEntry hEq
    exact hApart (List.mem_map_of_mem hEntry) (of_decide_eq_true hEq ▸ hLower)
  have hUpperDot : letter.1 ≠ 0x130 := fun hEq =>
    hDotted (hEq ▸ List.mem_append_left _ (List.mem_map_of_mem hMem))
  have hLowerDot : letter.2 ≠ 0x130 := fun hEq => hDotted (hEq ▸ List.mem_append_right _ hLower)
  rw [lower, lower, if_neg hUpperDot, if_neg hLowerDot, find?_of_mem hKeys hMem, hNone, Option.elim_some,
    Option.elim_none]

/-- The capital sigma, whose lower case depends on its place, and the letters that are not the lower case of
their upper case. -/
def irregular : List Nat := 0x3a3 :: upperStrays.map Prod.snd

theorem lower_simpleUpper {n : Nat} (h : n ∉ irregular) : lower (simpleUpper n) = lower n := by
  cases hFind : upperTable.find? (·.2 = n) with
  | none => rw [simpleUpper, hFind, Option.elim_none]
  | some letter =>
    obtain rfl : letter.2 = n := by simpa using List.find?_some hFind
    rw [simpleUpper, hFind, Option.elim_some]
    rcases List.mem_append.mp (List.mem_of_find?_eq_some hFind) with hMem | hStray
    · rcases List.mem_append.mp hMem with hLetter | hTitle
      · exact lower_of_letters hLetter
      · obtain ⟨title, hOne, rfl⟩ := List.mem_map.mp hTitle
        exact lower_of_titles title hOne
    · exact absurd (List.mem_cons_of_mem _ (List.mem_map_of_mem hStray)) h

theorem mem_irregular_iff {n : Nat} : n ∈ irregular ↔ n = 0x3a3 ∨ lower (simpleUpper n) ≠ lower n := by
  have hStrays : ∀ n ∈ upperStrays.map Prod.snd, lower (simpleUpper n) ≠ lower n := by decide +kernel
  refine ⟨fun h => (List.mem_cons.mp h).imp_right (hStrays n), fun h => ?_⟩
  by_contra hRegular
  rcases h with rfl | hLower
  · exact hRegular List.mem_cons_self
  · exact hLower (lower_simpleUpper hRegular)

section

variable (cased ignorable : Char → Bool)

def ignorableThenCased (chars : List Char) : Bool := (chars.dropWhile ignorable).head?.any cased

/-- `before` holds the characters already read, the last one first. -/
def lowercaseFrom (before : List Char) : List Char → List Nat
  | [] => []
  | c :: rest =>
    let wordFinal := ignorableThenCased cased ignorable before && !ignorableThenCased cased ignorable rest
    (if c = 'Σ' then [if wordFinal then 0x3c2 else 0x3c3] else lower c.toNat) ++ lowercaseFrom (c :: before) rest

def toLowercase (text : String) : String := .ofList ((lowercaseFrom cased ignorable [] text.toList).map .ofNat)

def Regular (text : String) : Prop := ∀ c ∈ text.toList, c.toNat ∉ irregular

instance : DecidablePred Regular := fun text => text.toList.decidableBAll _

def upperForm (text : String) : List Nat := text.toList.map fun c => simpleUpper c.toNat

variable {cased ignorable}

theorem lowercaseFrom_eq {before chars : List Char} (h : ∀ c ∈ chars, c.toNat ∉ irregular) :
    lowercaseFrom cased ignorable before chars = (chars.map fun c => simpleUpper c.toNat).flatMap lower := by
  induction chars generalizing before with
  | nil => rfl
  | cons c rest ih =>
    obtain ⟨hHead, hRest⟩ := List.forall_mem_cons.mp h
    obtain ⟨hSigma, hLower⟩ := not_or.mp (mt mem_irregular_iff.mpr hHead)
    have hChar : c ≠ 'Σ' := fun hEq => hSigma (hEq ▸ rfl)
    rw [lowercaseFrom, if_neg hChar, ih hRest, List.map_cons, List.flatMap_cons, not_not.mp hLower]

theorem toLowercase_eq {text : String} (h : Regular text) :
    toLowercase cased ignorable text = .ofList (((upperForm text).flatMap lower).map .ofNat) := by
  rw [toLowercase, lowercaseFrom_eq h, upperForm]

end

end Lib.CaseMapping
