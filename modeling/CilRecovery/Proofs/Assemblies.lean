import CilRecovery.Proofs.Brackets

/-!
The text of an assembly identity: the simple name and the components behind it, joined by commas.
Every identity whose name and culture are plain texts is read back from its own text.
-/
namespace CilRecovery

namespace Text

variable {base n d : Nat} {c : Char} {text : List Char}

/-- What holds for the characters of a text can be decided one by one. -/
theorem forall_of_all {holds : Char → Prop} [DecidablePred holds]
    (all : text.all (fun c => decide (holds c)) = true) : ∀ c ∈ text, holds c :=
  fun c member => of_decide_eq_true (List.all_eq_true.mp all c member)

theorem trimStart_eq_self (visible : ∀ c ∈ text.head?, isBlank c = false) :
    trimStart text = text := by
  cases text with
  | nil => rfl
  | cons c rest => exact List.dropWhile_cons_of_neg (by simp [visible c rfl])

/-- A text whose last character is no blank. -/
def EndsVisible (text : List Char) : Prop := ∃ start c, text = start ++ [c] ∧ isBlank c = false

theorem trim_eq_self (visible : ∀ c ∈ text.head?, isBlank c = false) (ends : EndsVisible text) :
    trim text = text := by
  obtain ⟨start, c, rfl, last⟩ := ends
  rw [trim, trimStart_eq_self visible, trimEnd_append last]
  rfl

theorem trim_of_visible (visible : ∀ c ∈ text, isBlank c = false) : trim text = text := by
  obtain rfl | ⟨start, c, rfl⟩ := text.eq_nil_or_concat'
  · rfl
  · exact trim_eq_self (fun d first => visible d (List.mem_of_mem_head? first))
      ⟨start, c, rfl, visible c (by simp)⟩

theorem trimEnd_of_trim (trimmed : trim text = text) : trimEnd text = text := by
  have start : trimStart text = text := by
    apply (List.dropWhile_sublist isBlank).eq_of_length_le
    calc text.length = (trimEnd (trimStart text)).length := by rw [← trim, trimmed]
      _ ≤ (trimStart text).length := by
        simpa [trimEnd] using
          (List.dropWhile_sublist isBlank (l := (trimStart text).reverse)).length_le
  rwa [trim, start] at trimmed

/-! ### Digits -/

/-- The digits that numbers are written in. -/
def digits : List Char := "0123456789abcdef".toList

theorem digitChar_mem_digits (small : d < 16) : d.digitChar ∈ digits := by
  revert d
  decide

theorem digitValue?_digitChar (small : d < 16) : digitValue? d.digitChar = some d := by
  revert d
  decide

theorem digitsValue?_append (sofar : Nat) (rest : List Char) :
    digitsValue? base sofar (text ++ rest) =
      (digitsValue? base sofar text).bind fun value => digitsValue? base value rest := by
  induction text generalizing sofar with
  | nil => rfl
  | cons c more ih =>
    simp only [List.cons_append, digitsValue?]
    split
    · split_ifs
      · exact ih _
      · rfl
    · rfl

/-- A number is read back from its digits. -/
theorem digitsValue?_toDigits (many : 1 < base) (few : base ≤ 16) (n : Nat) :
    digitsValue? base 0 (Nat.toDigits base n) = some n := by
  induction n using Nat.strongRecOn with
  | ind n ih =>
    rw [Nat.toDigits_eq_if many]
    split_ifs with small
    · simp [digitsValue?, digitValue?_digitChar (Nat.lt_of_lt_of_le small few), small]
    · have last : n % base < base := Nat.mod_lt _ (by omega)
      have fewer : n / base < n := Nat.div_lt_self (by omega) many
      rw [digitsValue?_append, ih _ fewer]
      simp [digitsValue?, digitValue?_digitChar (Nat.lt_of_lt_of_le last few), last,
        Nat.div_add_mod']

theorem mem_digits_of_mem_toDigits (many : 1 < base) (few : base ≤ 16)
    (member : c ∈ Nat.toDigits base n) : c ∈ digits := by
  induction n using Nat.strongRecOn with
  | ind n ih =>
    rw [Nat.toDigits_eq_if many] at member
    split_ifs at member with small
    · rw [List.mem_singleton.mp member]
      exact digitChar_mem_digits (Nat.lt_of_lt_of_le small few)
    · have last : n % base < base := Nat.mod_lt _ (by omega)
      have fewer : n / base < n := Nat.div_lt_self (by omega) many
      rcases List.mem_append.mp member with earlier | here
      · exact ih _ fewer earlier
      · rw [List.mem_singleton.mp here]
        exact digitChar_mem_digits (Nat.lt_of_lt_of_le last few)

theorem parseNat?_of_digits {limit : Nat} (some : text ≠ []) (noPlus : '+' ∉ text)
    (value : digitsValue? base 0 text = .some n) (small : n < limit) :
    parseNat? base limit text = .some n := by
  have kept : dropPlus text = text := by
    unfold dropPlus
    split
    · simp at noPlus
    · rfl
  simp [parseNat?, kept, some, value, small]

theorem noPlus_of_digits (each : ∀ c ∈ text, c ∈ digits) : '+' ∉ text :=
  fun member => absurd (each _ member) (by decide)

theorem parseNat?_toDigits {limit : Nat} (many : 1 < base) (few : base ≤ 16) (small : n < limit) :
    parseNat? base limit (Nat.toDigits base n) = some n :=
  parseNat?_of_digits Nat.toDigits_ne_nil
    (noPlus_of_digits fun _ member => mem_digits_of_mem_toDigits many few member)
    (digitsValue?_toDigits many few n) small

theorem toList_hex_two (byte : n < 256) :
    (hex 2 n).toList = [(n / 16).digitChar, (n % 16).digitChar] := by
  have high : n / 16 < 16 := by omega
  simp only [hex, String.toList_ofList]
  rw [Nat.toDigits_eq_if (by decide)]
  split_ifs with small
  · simp [Nat.div_eq_of_lt small, Nat.mod_eq_of_lt small]
  · simp [Nat.toDigits_of_lt_base high]

theorem parseNat?_hex_two (byte : n < 256) :
    parseNat? 16 256 [(n / 16).digitChar, (n % 16).digitChar] = some n := by
  have high : n / 16 < 16 := by omega
  have low : n % 16 < 16 := by omega
  apply parseNat?_of_digits (by simp) _ _ byte
  · apply noPlus_of_digits
    simp [digitChar_mem_digits high, digitChar_mem_digits low]
  · simp [digitsValue?, digitValue?_digitChar high, digitValue?_digitChar low, high, low,
      Nat.div_add_mod']

end Text

namespace TypeName

/-! ### Versions and key tokens -/

theorem splitDots_of_notMem {text : List Char} (noDot : '.' ∉ text) : splitDots text = [text] := by
  induction text with
  | nil => rfl
  | cons c rest ih =>
    obtain ⟨plain, later⟩ : '.' ≠ c ∧ '.' ∉ rest := by simpa using noDot
    rw [splitDots, if_neg (Ne.symm plain), ih later]
    rfl

theorem splitDots_append {text rest : List Char} (noDot : '.' ∉ text) :
    splitDots (text ++ '.' :: rest) = text :: splitDots rest := by
  induction text with
  | nil => rfl
  | cons c more ih =>
    obtain ⟨plain, later⟩ : '.' ≠ c ∧ '.' ∉ more := by simpa using noDot
    rw [List.cons_append, splitDots, if_neg (Ne.symm plain), ih later]
    rfl

theorem noDot_toDigits (n : Nat) : '.' ∉ Nat.toDigits 10 n := fun member =>
  absurd (Text.mem_digits_of_mem_toDigits (by decide) (by decide) member) (by decide)

theorem toList_render_version (version : Version) :
    version.render.toList =
      Nat.toDigits 10 version.major.toNat ++ '.' :: (Nat.toDigits 10 version.minor.toNat ++
        '.' :: (Nat.toDigits 10 version.build.toNat ++
          '.' :: Nat.toDigits 10 version.revision.toNat)) := by
  simp [Version.render]

theorem parseVersion_render (version : Version) :
    parseVersion version.render.toList = .ok version := by
  have parsed (n : UInt16) : Text.parseNat? 10 0x10000 (Nat.toDigits 10 n.toNat) = some n.toNat :=
    Text.parseNat?_toDigits (by decide) (by decide) n.toNat_lt
  have parts : splitDots version.render.toList =
      [Nat.toDigits 10 version.major.toNat, Nat.toDigits 10 version.minor.toNat,
        Nat.toDigits 10 version.build.toNat, Nat.toDigits 10 version.revision.toNat] := by
    rw [toList_render_version, splitDots_append (noDot_toDigits _),
      splitDots_append (noDot_toDigits _), splitDots_append (noDot_toDigits _),
      splitDots_of_notMem (noDot_toDigits _)]
  simp only [parseVersion, parts, parseVersion.go, parsed]
  simp [Except.map, bind, Except.bind, pure, Except.pure]

theorem bytesOfPairs?_hex (bytes : Bytes) :
    bytesOfPairs? (bytes.flatMap fun b => (Text.hex 2 b.toNat).toList) = some bytes := by
  induction bytes with
  | nil => rfl
  | cons b rest ih =>
    rw [List.flatMap_cons, Text.toList_hex_two b.toNat_lt]
    simp [bytesOfPairs?, Text.parseNat?_hex_two b.toNat_lt, ih]

theorem utf8ByteSize_digits {text : List Char} (each : ∀ c ∈ text, c ∈ Text.digits) :
    (String.ofList text).utf8ByteSize = text.length := by
  induction text with
  | nil => rfl
  | cons c rest ih =>
    obtain ⟨first, later⟩ := List.forall_mem_cons.mp each
    have singles : ∀ c ∈ Text.digits, c.utf8Size = 1 := Text.forall_of_all (by decide)
    have single : c.utf8Size = 1 := singles c first
    have apart : String.ofList (c :: rest) = String.singleton c ++ String.ofList rest := by
      apply String.toList_injective
      simp
    rw [apart, String.utf8ByteSize_append, String.utf8ByteSize_singleton, single, ih later,
      List.length_cons, Nat.add_comm]

/-- The bytes of a key token, two digits for each. -/
def keyDigits (bytes : Bytes) : List Char := bytes.flatMap fun b => (Text.hex 2 b.toNat).toList

theorem mem_digits_of_mem_keyDigits {bytes : Bytes} {c : Char} (member : c ∈ keyDigits bytes) :
    c ∈ Text.digits := by
  obtain ⟨b, _, digit⟩ := List.mem_flatMap.mp member
  have := b.toNat_lt
  rw [Text.toList_hex_two b.toNat_lt] at digit
  rcases List.mem_pair.mp digit with rfl | rfl
  · exact Text.digitChar_mem_digits (by omega)
  · exact Text.digitChar_mem_digits (by omega)

theorem length_keyDigits (bytes : Bytes) : (keyDigits bytes).length = 2 * bytes.length := by
  simp only [keyDigits, List.length_flatMap, Text.toList_hex_two (UInt8.toNat_lt _)]
  simp [Nat.mul_comm]

theorem parseKeyToken_keyDigits (bytes : Bytes) : parseKeyToken (keyDigits bytes) = .ok bytes := by
  have size : (String.ofList (keyDigits bytes)).utf8ByteSize % 2 = 0 := by
    rw [utf8ByteSize_digits fun _ => mem_digits_of_mem_keyDigits, length_keyDigits]
    omega
  simp only [parseKeyToken, size]
  rw [keyDigits, bytesOfPairs?_hex]
  rfl

/-! ### Components -/

theorem addComponent_eq (identity : AssemblyIdentity) (key value : List Char) (plain : '=' ∉ key) :
    addComponent identity (key ++ '=' :: value) =
      match String.ofList (Text.trim key) with
      | "Version" => do
        return { identity with version := some (← parseVersion (Text.trim value)) }
      | "Culture" =>
        .ok { identity with
          culture := if isWord "neutral" (Text.trim value) then none
            else some (String.ofList (Text.trim value)) }
      | "PublicKeyToken" =>
        if isWord "null" (Text.trim value) then .ok { identity with publicKeyToken := none }
        else do return { identity with
          publicKeyToken := some (← parseKeyToken (Text.trim value)) }
      | _ => .ok identity := by
  have taken : (key ++ '=' :: value).takeWhile (· != '=') = key := by
    have others : ∀ c ∈ key, (c != '=') = true := fun c member => by
      simpa using ne_of_mem_of_not_mem member plain
    rw [List.takeWhile_append_of_pos others]
    simp
  have longer : key.length ≠ (key ++ '=' :: value).length := by simp
  have behind : (key ++ '=' :: value).drop (key.length + 1) = value := by
    simp [List.drop_append]
  simp only [addComponent, taken, behind, if_neg longer]
  rfl

end TypeName

/-- A text that stands for itself in an assembly name. -/
structure Text.Plain (text : List Char) : Prop where
  some : text ≠ []
  trimmed : Text.trim text = text
  free : ∀ c ∈ text, c ∉ [',', '[', ']', '\\']

namespace AssemblyIdentity

open CilRecovery.TypeName

/-- An identity that can be told from its text: one whose name and culture are plain, the culture
not being the word for none. -/
structure Spellable (identity : AssemblyIdentity) : Prop where
  name : Text.Plain identity.name.toList
  culture : ∀ culture ∈ identity.culture,
    Text.Plain culture.toList ∧ isWord "neutral" culture.toList = false

/-- A key and its value. -/
def component (key : String) (value : List Char) : List Char := key.toList ++ '=' :: value

def versionText (version : Version) : List Char := component "Version" version.render.toList

def cultureText (culture : String) : List Char := component "Culture" culture.toList

def keyText (token : Bytes) : List Char := component "PublicKeyToken" (keyDigits token)

/-- The simple name and the components behind it. -/
def components (identity : AssemblyIdentity) : List (List Char) :=
  identity.name.toList ::
    (identity.version.toList.map versionText ++ identity.culture.toList.map cultureText ++
      identity.publicKeyToken.toList.map keyText)

variable (identity : AssemblyIdentity)

/-- A component that may be absent, as the whole text has it. -/
theorem toList_optional {α : Type} (part : Option α) {shown : α → String} {text : α → List Char}
    (same : ∀ value, (shown value).toList = ',' :: ' ' :: text value) :
    ((part.map shown).getD "").toList =
      (part.toList.map text).flatMap fun component => ',' :: ' ' :: component := by
  cases part with
  | none => rfl
  | some value => simp [same]

theorem toList_render :
    ',' :: ' ' :: identity.render.toList =
      identity.components.flatMap fun component => ',' :: ' ' :: component := by
  have version (v : Version) : (", Version=" ++ v.render).toList = ',' :: ' ' :: versionText v :=
    String.toList_append ..
  have culture (c : String) : (", Culture=" ++ c).toList = ',' :: ' ' :: cultureText c :=
    String.toList_append ..
  have key (bytes : Bytes) :
      (", PublicKeyToken=" ++ String.join (bytes.map fun b => Text.hex 2 b.toNat)).toList =
        ',' :: ' ' :: keyText bytes := by
    rw [String.toList_append, String.toList_join, List.flatMap_map]
    rfl
  simp only [render, String.toList_append, toList_optional _ version, toList_optional _ culture,
    toList_optional _ key, components, List.flatMap_cons, List.flatMap_append, List.cons_append,
    List.append_assoc]

theorem plain_component {key : String} {value : List Char}
    (solid : ∀ c ∈ key.toList, Text.isBlank c = false ∧ c ∉ [',', '[', ']', '\\'])
    (trimmed : Text.trim value = value) (free : ∀ c ∈ value, c ∉ [',', '[', ']', '\\']) :
    Text.Plain (component key value) where
  some := List.append_ne_nil_of_right_ne_nil _ (List.cons_ne_nil _ _)
  trimmed := by
    rw [component, Text.trim_append rfl, Text.trimEnd_of_trim trimmed,
      Text.trimStart_eq_self fun c first => (solid c (List.mem_of_mem_head? first)).1]
  free := by
    intro c member
    rcases List.mem_append.mp member with inKey | inValue
    · exact (solid c inKey).2
    · rcases List.mem_cons.mp inValue with rfl | inValue
      · decide
      · exact free c inValue

/-- No dot and no digit is a blank or has a meaning in a type name. -/
theorem solid_of_digits {c : Char} (digit : c ∈ '.' :: Text.digits) :
    Text.isBlank c = false ∧ c ∉ [',', '[', ']', '\\'] := by
  have each : ∀ c ∈ '.' :: Text.digits, Text.isBlank c = false ∧ c ∉ [',', '[', ']', '\\'] :=
    Text.forall_of_all (by decide)
  exact each c digit

theorem solid_version {version : Version} {c : Char} (member : c ∈ version.render.toList) :
    Text.isBlank c = false ∧ c ∉ [',', '[', ']', '\\'] := by
  apply solid_of_digits
  have digit {n : Nat} (member : c ∈ Nat.toDigits 10 n) : c ∈ Text.digits :=
    Text.mem_digits_of_mem_toDigits (by decide) (by decide) member
  simp only [toList_render_version, List.mem_append, List.mem_cons] at member
  grind

theorem solid_keyDigits {token : Bytes} {c : Char} (member : c ∈ keyDigits token) :
    Text.isBlank c = false ∧ c ∉ [',', '[', ']', '\\'] :=
  solid_of_digits (List.mem_cons_of_mem _ (mem_digits_of_mem_keyDigits member))

theorem trim_version (version : Version) :
    Text.trim version.render.toList = version.render.toList :=
  Text.trim_of_visible fun _ member => (solid_version member).1

theorem trim_keyDigits (token : Bytes) : Text.trim (keyDigits token) = keyDigits token :=
  Text.trim_of_visible fun _ member => (solid_keyDigits member).1

theorem addComponent_versionText (version : Version) :
    addComponent identity (versionText version) = .ok { identity with version := version } := by
  have key : String.ofList (Text.trim "Version".toList) = "Version" := by decide
  have eq := addComponent_eq identity "Version".toList version.render.toList (by decide)
  rw [key, trim_version, parseVersion_render] at eq
  exact eq.trans (by simp)

theorem addComponent_cultureText {culture : String} (plain : Text.Plain culture.toList)
    (notNeutral : isWord "neutral" culture.toList = false) :
    addComponent identity (cultureText culture) = .ok { identity with culture := culture } := by
  have key : String.ofList (Text.trim "Culture".toList) = "Culture" := by decide
  have eq := addComponent_eq identity "Culture".toList culture.toList (by decide)
  rw [key, plain.trimmed, notNeutral] at eq
  exact eq.trans (by simp)

theorem addComponent_keyText (token : Bytes) :
    addComponent identity (keyText token) = .ok { identity with publicKeyToken := token } := by
  have key : String.ofList (Text.trim "PublicKeyToken".toList) = "PublicKeyToken" := by decide
  have notNull : isWord "null" (keyDigits token) = false := by
    cases digits : keyDigits token with
    | nil => rfl
    | cons c rest =>
      have digit : c ∈ Text.digits := mem_digits_of_mem_keyDigits (digits ▸ List.mem_cons_self)
      have others : ∀ c ∈ Text.digits, c.toLower ≠ 'n' := Text.forall_of_all (by decide)
      simp [isWord, others c digit]
  have eq := addComponent_eq identity "PublicKeyToken".toList (keyDigits token) (by decide)
  rw [key, trim_keyDigits, notNull, parseKeyToken_keyDigits] at eq
  exact eq.trans (by simp)

variable {identity}

theorem plain_of_mem_components (spellable : identity.Spellable) {text : List Char}
    (member : text ∈ identity.components) : Text.Plain text := by
  simp only [components, List.mem_cons, List.mem_append, List.mem_map, Option.mem_toList] at member
  rcases member with rfl | (⟨version, _, rfl⟩ | ⟨culture, present, rfl⟩) | ⟨token, _, rfl⟩
  · exact spellable.name
  · exact plain_component (Text.forall_of_all (by decide)) (trim_version version)
      fun c inside => (solid_version inside).2
  · have plain := (spellable.culture culture present).1
    exact plain_component (Text.forall_of_all (by decide)) plain.trimmed plain.free
  · exact plain_component (Text.forall_of_all (by decide)) (trim_keyDigits token)
      fun c inside => (solid_keyDigits inside).2

/-- A component that may be absent sets its field if it is there. -/
theorem foldlM_optional {α : Type} (part : Option α) (set : Option α → AssemblyIdentity)
    {text : α → List Char}
    (added : ∀ value ∈ part, addComponent (set none) (text value) = .ok (set (some value))) :
    (part.toList.map text).foldlM addComponent (set none) = .ok (set part) := by
  cases part with
  | none => rfl
  | some value =>
    rw [Option.toList_some, List.map_singleton, List.foldlM_cons, added value rfl]
    rfl

/-- An identity is read back from its components. -/
theorem parseAssembly_components (spellable : identity.Spellable) :
    parseAssembly (identity.components.map (' ' :: ·)) = .ok identity := by
  have trimmed : (identity.components.map (' ' :: ·)).map Text.trim = identity.components := by
    rw [List.map_map]
    conv_rhs => rw [← List.map_id identity.components]
    exact List.map_congr_left fun text member => (plain_of_mem_components spellable member).trimmed
  have named : identity.name.toList.isEmpty = false := by
    simpa using spellable.name.some
  obtain ⟨name, version, culture, token⟩ := identity
  have versions := foldlM_optional version (fun version => { name, version })
    fun value _ => addComponent_versionText { name } value
  have cultures := foldlM_optional culture (fun culture => { name, version, culture })
    fun value present => addComponent_cultureText { name, version }
      (spellable.culture value present).1 (spellable.culture value present).2
  have tokens := foldlM_optional token
    (fun publicKeyToken => { name, version, culture, publicKeyToken })
    fun value _ => addComponent_keyText { name, version, culture } value
  rw [parseAssembly, trimmed]
  simp only [components, named, List.foldlM_append, String.ofList_toList]
  simp [versions, cultures, tokens, bind, Except.bind]

end AssemblyIdentity

end CilRecovery
