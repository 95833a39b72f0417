import Weregopher.Lib.JsonSyntax
import Weregopher.Proxy.Classify

/-! # What the bounded JSON reader accepts

The library is assumed to read JSON texts as the grammar says, up to a nesting and
a range of numbers of its own. The visitor then accepts a text exactly when its
tree is within the levels and values of the limits and no object repeats a name.
-/
namespace Weregopher.Proxy
open Lib Lib.Stateful

mutual

/-- The stream a library shows for a tree. How a number is shown is up to the library, but a float
is finite. -/
inductive Shows : Json → JsonStream → Prop
  | unit : Shows .null .unit
  | bool (value : Bool) : Shows (.bool value) (.bool value)
  | i64 (value : Int64) : Shows (.integer value.toInt) (.i64 value)
  | u64 (value : UInt64) : Shows (.integer value.toNat) (.u64 value)
  | integerF64 (value : Int) (bits : UInt64) (hFinite : (Number.ofF64 bits).isSome = true) :
    Shows (.integer value) (.f64 bits)
  | decimalF64 (literal : String) (bits : UInt64) (hFinite : (Number.ofF64 bits).isSome = true) :
    Shows (.decimal literal) (.f64 bits)
  | str (value : String) : Shows (.string value) (.str value)
  | seq {items : List Json} {elements : JsonElements} (h : ShowsItems items elements) :
    Shows (.array items) (.seq elements)
  | map {members : List (String × Json)} {entries : JsonEntries} (h : ShowsMembers members entries) :
    Shows (.object members) (.map entries)

inductive ShowsItems : List Json → JsonElements → Prop
  | done : ShowsItems [] .done
  | next {item : Json} {items : List Json} {element : JsonStream} {rest : JsonElements} (h : Shows item element)
    (hRest : ShowsItems items rest) : ShowsItems (item :: items) (.next element rest)

inductive ShowsMembers : List (String × Json) → JsonEntries → Prop
  | done : ShowsMembers [] .done
  | entry {name : String} {value : Json} {members : List (String × Json)} {shown : JsonStream} {rest : JsonEntries}
    (h : Shows value shown) (hRest : ShowsMembers members rest) :
    ShowsMembers ((name, value) :: members) (.entry name shown rest)

end

mutual

/-- The library meets no error in the value. -/
def JsonStream.Clean : JsonStream → Prop
  | .invalid _ => False
  | .seq elements => elements.Clean
  | .map entries => entries.Clean
  | _ => True

def JsonElements.Clean : JsonElements → Prop
  | .done => True
  | .failed _ => False
  | .next element rest => element.Clean ∧ rest.Clean

def JsonEntries.Clean : JsonEntries → Prop
  | .done => True
  | .failed _ => False
  | .entry _ value rest => value.Clean ∧ rest.Clean

end

/-- The nesting at which the library stops: a text may open one container less inside another. -/
def serdeRecursionLimit : Nat := 128

/-- The tree of bytes that the library reads without an error. -/
def Readable (inRange : Json → Bool) (bytes : List UInt8) (json : Json) : Prop :=
  Json.readBytes bytes = some json ∧ json.depth < serdeRecursionLimit ∧ json.numbersAll inRange = true

/-- What is assumed of the library: it shows the tree of every text within its nesting and its range
of numbers, and meets an error in all other byte strings. -/
structure ReadsJson (serdeJson : List UInt8 → JsonDocument) (inRange : Json → Bool) : Prop where
  shown : ∀ bytes json, Readable inRange bytes json →
    Shows json (serdeJson bytes).root ∧ (serdeJson bytes).trailing = none
  refused : ∀ bytes, (¬∃ json, Readable inRange bytes json) →
    ¬((serdeJson bytes).root.Clean ∧ (serdeJson bytes).trailing = none)

namespace JsonBudget

def spend (b : JsonBudget) (count : Nat) : JsonBudget := { b with nodes := b.nodes + count }

@[simp] theorem limits_spend (b : JsonBudget) (count : Nat) : (b.spend count).limits = b.limits := rfl

@[simp] theorem nodes_spend (b : JsonBudget) (count : Nat) : (b.spend count).nodes = b.nodes + count := rfl

theorem spend_spend (b : JsonBudget) (m n : Nat) : (b.spend m).spend n = b.spend (m + n) := by
  simp [spend, Nat.add_assoc]

/-- Values at a depth with so many levels and nodes stay within the limits. -/
structure Fits (b : JsonBudget) (depth levels nodes : Nat) : Prop where
  levels_le : depth + levels ≤ b.limits.depth + 1
  nodes_le : b.nodes + nodes ≤ b.limits.nodes

theorem fits_cons {b : JsonBudget} {depth levels levels' nodes nodes' : Nat} :
    b.Fits depth (max levels levels') (nodes + nodes') ↔
      b.Fits depth levels nodes ∧ (b.spend nodes).Fits depth levels' nodes' := by
  constructor
  · rintro ⟨hLevels, hNodes⟩
    refine ⟨⟨by omega, by omega⟩, ⟨?_, ?_⟩⟩ <;> simp only [limits_spend, nodes_spend] <;> omega
  · rintro ⟨⟨hLevels, hNodes⟩, ⟨hLevels', hNodes'⟩⟩
    simp only [limits_spend, nodes_spend] at hLevels' hNodes'
    exact ⟨by omega, by omega⟩

theorem fits_container {b : JsonBudget} {depth levels nodes : Nat} :
    b.Fits depth (1 + levels) (1 + nodes) ↔ (b.spend 1).Fits (depth + 1) levels nodes := by
  constructor
  · rintro ⟨hLevels, hNodes⟩
    refine ⟨?_, ?_⟩ <;> simp only [limits_spend, nodes_spend] <;> omega
  · rintro ⟨hLevels, hNodes⟩
    simp only [limits_spend, nodes_spend] at hLevels hNodes
    exact ⟨by omega, by omega⟩

theorem claim_spec (depth : Nat) (b : JsonBudget) :
    wp (claim depth) b (fun _ b' => b.Fits depth 1 1 ∧ b' = b.spend 1) (fun _ _ => ¬b.Fits depth 1 1) := by
  unfold claim fail
  simp only [wp_bind, wp_get, wp_ite, wp_modify, wp_throw]
  refine ⟨fun hDepth h => ?_, fun hDepth => ⟨fun hNodes h => ?_, fun hNodes => ⟨⟨?_, ?_⟩, rfl⟩⟩⟩
  · have := h.levels_le
    omega
  · have := h.nodes_le
    omega
  · omega
  · omega

end JsonBudget

section
open JsonBudget

theorem levels_pos (json : Json) : 1 ≤ json.levels := by
  cases json <;> simp [Json.levels]

theorem nodes_pos (json : Json) : 1 ≤ json.nodes := by
  cases json <;> simp [Json.nodes]

mutual

theorem clean_visitValue : ∀ (stream : JsonStream) (depth : Nat) (b : JsonBudget),
    wp (visitValue depth stream) b (fun _ _ => stream.Clean) (fun _ _ => True)
  | .invalid _, _, _ => by rw [visitValue]; trivial
  | .unit, _, _ | .bool _, _, _ | .i64 _, _, _ | .u64 _, _, _ | .str _, _, _ => by
    rw [visitValue]
    trivial
  | .f64 bits, _, _ => by
    rw [visitValue]
    cases Number.ofF64 bits <;> trivial
  | .seq elements, depth, b => by
    rw [visitValue, wp_bind]
    refine wp_mono (clean_visitSeq elements (depth + 1) b) (fun _ _ h => ?_) fun _ _ _ => trivial
    rw [wp_pure, JsonStream.Clean]
    exact h
  | .map entries, depth, b => by
    rw [visitValue, wp_bind]
    refine wp_mono (clean_visitMap entries (depth + 1) [] b) (fun _ _ h => ?_) fun _ _ _ => trivial
    rw [wp_pure, JsonStream.Clean]
    exact h

theorem clean_visitSeq : ∀ (elements : JsonElements) (depth : Nat) (b : JsonBudget),
    wp (visitSeq depth elements) b (fun _ _ => elements.Clean) (fun _ _ => True)
  | .done, _, _ => by rw [visitSeq]; trivial
  | .failed _, _, _ => by rw [visitSeq]; trivial
  | .next element rest, depth, b => by
    rw [visitSeq]
    simp only [wp_bind]
    refine wp_mono (claim_spec depth b) (fun _ b' _ => ?_) fun _ _ _ => trivial
    refine wp_mono (clean_visitValue element depth b') (fun _ b' hElement => ?_) fun _ _ _ => trivial
    refine wp_mono (clean_visitSeq rest depth b') (fun _ _ hRest => ?_) fun _ _ _ => trivial
    rw [wp_pure, JsonElements.Clean]
    exact ⟨hElement, hRest⟩

theorem clean_visitMap : ∀ (entries : JsonEntries) (depth : Nat) (keys : List String) (b : JsonBudget),
    wp (visitMap depth keys entries) b (fun _ _ => entries.Clean) (fun _ _ => True)
  | .done, _, _, _ => by rw [visitMap]; trivial
  | .failed _, _, _, _ => by rw [visitMap]; trivial
  | .entry key value rest, depth, keys, b => by
    rw [visitMap]
    simp only [wp_bind, wp_ite]
    refine ⟨fun _ => by trivial, fun _ => ?_⟩
    refine wp_mono (claim_spec depth b) (fun _ b' _ => ?_) fun _ _ _ => trivial
    refine wp_mono (clean_visitValue value depth b') (fun _ b' hValue => ?_) fun _ _ _ => trivial
    refine wp_mono (clean_visitMap rest depth (key :: keys) b') (fun _ _ hRest => ?_) fun _ _ _ => trivial
    rw [wp_pure, JsonEntries.Clean]
    exact ⟨hValue, hRest⟩

end

/-- What a visitor does to a budget when its tree has so many levels and nodes: it spends the nodes
where they fit and the condition holds, and fails otherwise. -/
def Visits {α : Type} (m : JsonReader α) (b before : JsonBudget) (depth levels nodes : Nat) (condition : Prop) : Prop :=
  wp m b (fun _ b' => b' = before.spend nodes ∧ before.Fits depth levels nodes ∧ condition)
    (fun _ _ => ¬(before.Fits depth levels nodes ∧ condition))

variable {b : JsonBudget} {depth : Nat} {condition : Prop} {α : Type}

theorem visits_leaf {json : Json} {value : Value} (h : b.Fits depth 1 1)
    (hLevels : json.levels = 1) (hNodes : json.nodes = 1) (hNames : json.distinctNames = true) :
    Visits (pure value) (b.spend 1) b depth json.levels json.nodes (json.distinctNames = true) := by
  rw [Visits, wp_pure, hLevels, hNodes]
  exact ⟨rfl, h, hNames⟩

theorem visits_nil {a : α} (hDepth : depth ≤ b.limits.depth + 1) (hNodes : b.nodes ≤ b.limits.nodes) (h : condition) :
    Visits (pure a) b b depth 0 0 condition := by
  rw [Visits, wp_pure]
  exact ⟨rfl, ⟨hDepth, hNodes⟩, h⟩

theorem visits_cons {β γ : Type} {visit : JsonReader α} {visitRest : JsonReader β} {f : α → β → γ}
    {levels levels' nodes nodes' : Nat} {condition' : Prop} (hLevels : 1 ≤ levels) (hNodes : 1 ≤ nodes)
    (hVisit : b.Fits depth 1 1 → Visits visit (b.spend 1) b depth levels nodes condition)
    (hRest : b.Fits depth levels nodes →
      Visits visitRest (b.spend nodes) (b.spend nodes) depth levels' nodes' condition') :
    Visits (do claim depth; let first ← visit; let rest ← visitRest; return f first rest) b b depth
      (max levels levels') (nodes + nodes') (condition ∧ condition') := by
  rw [Visits]
  simp only [wp_bind, fits_cons]
  refine wp_mono (claim_spec depth b) (fun _ b' hClaim => ?_) fun _ _ hFull h => hFull ?_
  · obtain ⟨hFits, rfl⟩ := hClaim
    refine wp_mono (hVisit hFits) (fun _ b' hFirst => ?_) fun _ _ hFull h => hFull ⟨h.1.1, h.2.1⟩
    obtain ⟨rfl, hFirst, hCondition⟩ := hFirst
    refine wp_mono (hRest hFirst) (fun _ b' hOthers => ?_) fun _ _ hFull h => hFull ⟨h.1.2, h.2.2⟩
    obtain ⟨rfl, hOthers, hCondition'⟩ := hOthers
    exact ⟨spend_spend .., ⟨hFirst, hOthers⟩, hCondition, hCondition'⟩
  · obtain ⟨⟨⟨hFirst, hCount⟩, -⟩, -⟩ := h
    exact ⟨by omega, by omega⟩

theorem freshNames_cons {name : String} {value : Json} {members : List (String × Json)} {keys : List String} :
    ((((name, value) :: members).map Prod.fst).Nodup ∧ ∀ member ∈ (name, value) :: members, member.1 ∉ keys) ↔
      name ∉ keys ∧ (members.map Prod.fst).Nodup ∧ ∀ member ∈ members, member.1 ∉ name :: keys := by
  rw [List.map_cons, List.nodup_cons, List.forall_mem_cons]
  constructor
  · rintro ⟨⟨hName, hNodup⟩, hKey, hMembers⟩
    refine ⟨hKey, hNodup, fun member hMember hSame => ?_⟩
    rcases List.mem_cons.mp hSame with rfl | hSame
    · exact hName (List.mem_map.mpr ⟨member, hMember, rfl⟩)
    · exact hMembers member hMember hSame
  · rintro ⟨hKey, hNodup, hMembers⟩
    refine ⟨⟨fun hName => ?_, hNodup⟩, hKey, fun member hMember hSame => ?_⟩
    · obtain ⟨member, hMember, rfl⟩ := List.mem_map.mp hName
      exact hMembers member hMember List.mem_cons_self
    · exact hMembers member hMember (List.mem_cons_of_mem _ hSame)

mutual

theorem visits_visitValue : ∀ (stream : JsonStream) {json : Json} (depth : Nat) (b : JsonBudget), Shows json stream →
    b.Fits depth 1 1 →
    Visits (visitValue depth stream) (b.spend 1) b depth json.levels json.nodes (json.distinctNames = true)
  | .invalid _, _, _, _, hShows, _ => by cases hShows
  | .unit, _, depth, b, hShows, h | .bool _, _, depth, b, hShows, h | .i64 _, _, depth, b, hShows, h
  | .u64 _, _, depth, b, hShows, h | .str _, _, depth, b, hShows, h => by
    cases hShows
    rw [visitValue]
    exact visits_leaf h rfl rfl rfl
  | .f64 bits, _, depth, b, hShows, h => by
    rw [visitValue]
    cases hShows with
    | integerF64 value bits hFinite | decimalF64 literal bits hFinite =>
      obtain ⟨number, hNumber⟩ := Option.isSome_iff_exists.mp hFinite
      rw [hNumber]
      exact visits_leaf h rfl rfl rfl
  | .seq elements, _, depth, b, .seq hItems, h => by
    have hDepth := h.levels_le
    have hParts := visits_visitSeq elements (depth + 1) (b.spend 1) hItems hDepth h.nodes_le
    rw [visitValue, Visits, wp_bind, Json.levels, Json.nodes, Json.distinctNames, fits_container]
    refine wp_mono hParts (fun _ b' hb => ?_) fun _ _ hFull => hFull
    obtain ⟨rfl, hb⟩ := hb
    exact ⟨spend_spend .., hb⟩
  | .map entries, _, depth, b, .map hMembers, h => by
    have hDepth := h.levels_le
    have hParts := visits_visitMap entries (depth + 1) [] (b.spend 1) hMembers hDepth h.nodes_le
    rw [visitValue, Visits, wp_bind, Json.levels, Json.nodes, Json.distinctNames, fits_container, Bool.and_eq_true,
      decide_eq_true_iff]
    refine wp_mono hParts (fun _ b' hb => ?_) fun _ _ hFull h => hFull ⟨h.1, ⟨h.2.1, by simp⟩, h.2.2⟩
    obtain ⟨rfl, hFits, hNames, hDistinct⟩ := hb
    exact ⟨spend_spend .., hFits, hNames.1, hDistinct⟩

theorem visits_visitSeq : ∀ (elements : JsonElements) {items : List Json} (depth : Nat) (b : JsonBudget),
    ShowsItems items elements → depth ≤ b.limits.depth + 1 → b.nodes ≤ b.limits.nodes →
    Visits (visitSeq depth elements) b b depth (Json.itemsLevels items) (Json.itemsNodes items)
      (Json.itemsDistinct items = true)
  | .done, _, depth, b, .done, hDepth, hNodes => by
    rw [visitSeq]
    exact visits_nil hDepth hNodes rfl
  | .next element rest, _, depth, b, .next hElement hRest, hDepth, hNodes => by
    rw [visitSeq, Json.itemsLevels, Json.itemsNodes, Json.itemsDistinct, Bool.and_eq_true]
    refine visits_cons (levels_pos _) (nodes_pos _) (visits_visitValue element depth b hElement) fun hFits => ?_
    exact visits_visitSeq rest depth _ hRest hDepth hFits.nodes_le

theorem visits_visitMap : ∀ (entries : JsonEntries) {members : List (String × Json)} (depth : Nat)
    (keys : List String) (b : JsonBudget),
    ShowsMembers members entries → depth ≤ b.limits.depth + 1 → b.nodes ≤ b.limits.nodes →
    Visits (visitMap depth keys entries) b b depth (Json.membersLevels members) (Json.membersNodes members)
      (((members.map Prod.fst).Nodup ∧ ∀ member ∈ members, member.1 ∉ keys) ∧ Json.membersDistinct members = true)
  | .done, _, depth, keys, b, .done, hDepth, hNodes => by
    rw [visitMap]
    exact visits_nil hDepth hNodes ⟨⟨List.nodup_nil, by simp⟩, rfl⟩
  | .entry key value rest, _, depth, keys, b, .entry hValue hRest, hDepth, hNodes => by
    rw [visitMap, Json.membersLevels, Json.membersNodes, Json.membersDistinct, Bool.and_eq_true, freshNames_cons]
    split
    · rename_i hKey
      exact fun h => h.2.1.1 hKey
    · rename_i hKey
      have hEntry := visits_cons (f := fun value values => (key, value) :: values) (levels_pos _) (nodes_pos _)
        (visits_visitValue value depth b hValue)
        fun hFits => visits_visitMap rest depth (key :: keys) _ hRest hDepth hFits.nodes_le
      refine wp_mono hEntry (fun _ _ h => ?_) fun _ _ hFull h => hFull ?_
      · exact ⟨h.1, h.2.1, ⟨hKey, h.2.2.2.1⟩, h.2.2.1, h.2.2.2.2⟩
      · exact ⟨h.1, h.2.2.1, h.2.1.2, h.2.2.2⟩

end

end

/-- The reading that `parseBoundedJson` runs. -/
def readRoot (document : JsonDocument) : JsonReader Value := do
  JsonBudget.claim 1
  visitValue 1 document.root

theorem parseBoundedJson_ok_iff {env : ProxyEnvironment} {bytes : List UInt8} {limits : AppServerJsonLimits} :
    (∃ value, parseBoundedJson env bytes limits = .ok value) ↔
      (env.serdeJson bytes).trailing = none ∧
        ∃ value b, exec (readRoot (env.serdeJson bytes)) ⟨limits, 0, none⟩ = (.ok value, b) := by
  unfold parseBoundedJson
  dsimp only
  rw [← readRoot]
  rcases exec (readRoot (env.serdeJson bytes)) ⟨limits, 0, none⟩ with ⟨result, b⟩
  cases result with
  | error source =>
    constructor
    · rintro ⟨value, h⟩
      dsimp only at h
      split at h <;> cases h
    · rintro ⟨-, value, b', h⟩
      cases h
  | ok value =>
    dsimp only
    cases (env.serdeJson bytes).trailing with
    | none => exact ⟨fun _ => ⟨rfl, value, b, rfl⟩, fun _ => ⟨value, rfl⟩⟩
    | some source =>
      constructor
      · rintro ⟨value, h⟩
        cases h
      · rintro ⟨h, -⟩
        cases h

theorem visits_readRoot {document : JsonDocument} {json : Json} {b : JsonBudget} (h : Shows json document.root) :
    Visits (readRoot document) b b 1 json.levels json.nodes (json.distinctNames = true) := by
  unfold readRoot Visits
  rw [wp_bind]
  refine wp_mono (JsonBudget.claim_spec 1 b) (fun _ b' hClaim => ?_) fun _ _ hFull hFits => hFull ?_
  · obtain ⟨hFits, rfl⟩ := hClaim
    exact visits_visitValue document.root 1 b h hFits
  · obtain ⟨⟨hLevels, hNodes⟩, -⟩ := hFits
    have := levels_pos json
    have := nodes_pos json
    exact ⟨by omega, by omega⟩

/-- The bounded reader accepts exactly the byte strings that are one JSON text the library reads, with
no more levels and values than the limits allow and no name twice in one object. -/
theorem parseBoundedJson_accepts_iff (env : ProxyEnvironment) (inRange : Json → Bool)
    (hLibrary : ReadsJson env.serdeJson inRange) (bytes : List UInt8) (limits : AppServerJsonLimits) :
    (∃ value, parseBoundedJson env bytes limits = .ok value) ↔
      ∃ json, Readable inRange bytes json ∧ json.levels ≤ limits.depth ∧ json.nodes ≤ limits.nodes ∧
        json.distinctNames = true := by
  rw [parseBoundedJson_ok_iff]
  constructor
  · rintro ⟨hTrailing, value, b, hExec⟩
    have hClean : (env.serdeJson bytes).root.Clean := by
      have hVisit : wp (readRoot (env.serdeJson bytes)) ⟨limits, 0, none⟩
          (fun _ _ => (env.serdeJson bytes).root.Clean) (fun _ _ => True) := by
        unfold readRoot
        rw [wp_bind]
        exact wp_mono (JsonBudget.claim_spec 1 _) (fun _ b' _ => clean_visitValue _ 1 b') fun _ _ _ => trivial
      exact of_exec_ok hVisit hExec
    have hReadable : ∃ json, Readable inRange bytes json := by
      by_contra hNone
      exact hLibrary.refused bytes hNone ⟨hClean, hTrailing⟩
    obtain ⟨json, hJson⟩ := hReadable
    have hVisits := visits_readRoot (b := ⟨limits, 0, none⟩) (hLibrary.shown bytes json hJson).1
    obtain ⟨-, ⟨hLevels, hNodes⟩, hNames⟩ := of_exec_ok hVisits hExec
    refine ⟨json, hJson, ?_, ?_, hNames⟩
    · dsimp only at hLevels
      omega
    · dsimp only at hNodes
      omega
  · rintro ⟨json, hJson, hLevels, hNodes, hNames⟩
    obtain ⟨hShows, hTrailing⟩ := hLibrary.shown bytes json hJson
    have hVisits := visits_readRoot (b := ⟨limits, 0, none⟩) hShows
    refine ⟨hTrailing, ?_⟩
    rcases hExec : exec (readRoot (env.serdeJson bytes)) ⟨limits, 0, none⟩ with ⟨result, b⟩
    cases result with
    | ok value => exact ⟨value, b, rfl⟩
    | error source =>
      refine absurd ⟨⟨?_, ?_⟩, hNames⟩ (of_exec_error hVisits hExec)
      · dsimp only
        omega
      · dsimp only
        omega

namespace Sample

mutual

/-- The stream of a tree. Integers outside the fixed widths and decimals are shown as a float. -/
def stream : Json → JsonStream
  | .null => .unit
  | .bool value => .bool value
  | .integer (.ofNat value) => if h : value < 2 ^ 64 then .u64 (UInt64.ofNatLT value h) else .f64 0
  | .integer (.negSucc value) => if value < 2 ^ 63 then .i64 (Int64.ofInt (.negSucc value)) else .f64 0
  | .decimal _ => .f64 0
  | .string value => .str value
  | .array items => .seq (elements items)
  | .object members => .map (entries members)

def elements : List Json → JsonElements
  | [] => .done
  | item :: rest => .next (stream item) (elements rest)

def entries : List (String × Json) → JsonEntries
  | [] => .done
  | (name, value) :: rest => .entry name (stream value) (entries rest)

end

/-- The numbers whose stream is exact. -/
def isWord : Json → Bool
  | .integer value => -2 ^ 63 ≤ value ∧ value < 2 ^ 64
  | _ => false

/-- A library whose numbers are the integers of 64 bits. -/
def serdeJson (bytes : List UInt8) : JsonDocument :=
  match Json.readBytes bytes with
  | some json =>
    if json.depth < serdeRecursionLimit ∧ json.numbersAll isWord = true then ⟨stream json, none⟩
    else ⟨.invalid (.library "unreadable"), none⟩
  | none => ⟨.invalid (.library "no JSON text"), none⟩

mutual

theorem shows_stream : ∀ json : Json, Shows json (stream json)
  | .null => .unit
  | .bool value => .bool value
  | .integer (.ofNat value) => by
    rw [stream]
    split
    · rename_i h
      exact Shows.u64 (UInt64.ofNatLT value h)
    · exact .integerF64 _ 0 (by decide)
  | .integer (.negSucc value) => by
    rw [stream]
    split
    · have hValue : (Int64.ofInt (.negSucc value)).toInt = .negSucc value :=
        Int64.toInt_ofInt_of_le (by omega) (by omega)
      have hShown := Shows.i64 (Int64.ofInt (.negSucc value))
      rwa [hValue] at hShown
    · exact .integerF64 _ 0 (by decide)
  | .decimal literal => .decimalF64 literal 0 (by decide)
  | .string value => .str value
  | .array items => .seq (shows_elements items)
  | .object members => .map (shows_entries members)

theorem shows_elements : ∀ items : List Json, ShowsItems items (elements items)
  | [] => .done
  | item :: rest => .next (shows_stream item) (shows_elements rest)

theorem shows_entries : ∀ members : List (String × Json), ShowsMembers members (entries members)
  | [] => .done
  | (_, value) :: rest => .entry (shows_stream value) (shows_entries rest)

end

theorem readsJson : ReadsJson serdeJson isWord where
  shown bytes json h := by
    rw [serdeJson, h.1]
    dsimp only
    rw [if_pos h.2]
    exact ⟨shows_stream json, rfl⟩
  refused bytes hNone := by
    rintro ⟨hClean, -⟩
    rw [serdeJson] at hClean
    cases hRead : Json.readBytes bytes with
    | none =>
      rw [hRead] at hClean
      exact hClean
    | some json =>
      have hOutside : ¬(json.depth < serdeRecursionLimit ∧ json.numbersAll isWord = true) :=
        fun h => hNone ⟨json, hRead, h⟩
      rw [hRead] at hClean
      dsimp only at hClean
      rw [if_neg hOutside] at hClean
      exact hClean

def environment : ProxyEnvironment := ⟨serdeJson, fun _ => ⟨Vector.replicate 32 0⟩, 0⟩

/-- `{"id":1,"result":{"id":[true,null]}}`, with the second `id` written as an escape. -/
def response : List UInt8 := Lib.Bytes.utf8Bytes "\x7b\"id\":1,\"result\":\x7b\"\\u0069d\":[true,null]\x7d\x7d"

/-- A response with four levels and six values passes the limits that allow just that: the two equal
names stand in different objects. -/
theorem response_accepted : ReadsJson environment.serdeJson isWord ∧
    ∃ value, parseBoundedJson environment response ⟨4, 6, by decide, by decide⟩ = .ok value := by
  refine ⟨readsJson, (parseBoundedJson_accepts_iff environment isWord readsJson response _).mpr ?_⟩
  have hTree : (Json.readBytes response).any (fun json => decide (json.depth < serdeRecursionLimit) &&
      json.numbersAll isWord &&
        (decide (json.levels ≤ 4) && decide (json.nodes ≤ 6) && json.distinctNames)) = true := by
    decide +kernel
  obtain ⟨json, hRead, h⟩ := (Option.any_eq_true _ _).mp hTree
  simp only [Bool.and_eq_true, decide_eq_true_iff] at h
  exact ⟨json, ⟨hRead, h.1⟩, h.2.1.1, h.2.1.2, h.2.2⟩

end Sample

end Weregopher.Proxy
