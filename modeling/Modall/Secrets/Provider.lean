import Modall.Library.Codecs
import Modall.Library.Encoding

/-!
# Mounted secrets

`modall/secrets/provider.py`. A deployment projects its secrets as files below one directory.
`filename_for` names the file of a reference and a version: it encodes the two on their own and
joins them with a dot, which no encoding contains. So no reference reaches the file of another, and
no name leads out of the directory.
-/
namespace Modall
open Library Library.Encoding

/-- The exceptions of a provider. -/
inductive SecretFailure where
  | secretProviderError (message : String)
  | unicodeEncodeError
deriving DecidableEq

/-- `SecretProviderError("invalid secret reference")`. -/
def invalidSecretReference : SecretFailure := .secretProviderError "invalid secret reference"

structure SecretReference where
  provider : String
  externalReference : Text
  version : Text

namespace MountedFileSecretProvider

def maxFilenameBytes : Nat := 255

def isAlphanumeric (c : Nat) : Bool :=
  Text.within 'A' 'Z' c || Text.within 'a' 'z' c || Text.within '0' '9' c

/-- `_REFERENCE.fullmatch`. -/
def isReference : Text → Bool
  | [] => false
  | c :: rest => isAlphanumeric c && decide (rest.length ≤ 127) &&
      rest.all fun c => isAlphanumeric c || Text.among "._-" c

/-- `encode`, the local function of `filename_for`. -/
def encodeComponent (component : Text) : Except SecretFailure Text :=
  match encode component with
  | none => .error .unicodeEncodeError
  | some bytes => .ok ((stripPadding (urlsafeB64encode bytes)).map Char.toNat)

/-- `filename_for`. -/
def filenameFor (externalReference version : Text) : Except SecretFailure Text := do
  if isReference externalReference = false ∨ isReference version = false then
    throw invalidSecretReference
  let reference ← encodeComponent externalReference
  let version ← encodeComponent version
  let filename := reference ++ text "." ++ version
  match encodeAscii filename with
  | none => throw .unicodeEncodeError
  | some bytes =>
    if maxFilenameBytes < bytes.length then throw invalidSecretReference
    return filename

end MountedFileSecretProvider

/-- `validate_secret_reference`. -/
def validateSecretReference (reference : SecretReference) : Except SecretFailure Unit :=
  if reference.provider ∈ ["fixture", "mounted_file"] then do
    let _ ← MountedFileSecretProvider.filenameFor reference.externalReference reference.version
    return ()
  else throw (.secretProviderError "unsupported secret provider")

/-! ## Retrieval -/

/-- What stands under a name in the mounted directory: something that cannot be opened or read,
something that is not a regular file, or a file with its size and its content. -/
inductive MountEntry where
  | unreadable
  | special
  | regular (size : Nat) (content : ByteString)

/-- The mounted directory, by names. -/
abbrev Mount := Text → MountEntry

/-- `SecretLease`. -/
def secretLease (value : ByteString) : Except SecretFailure ByteString :=
  if value.isEmpty then throw (.secretProviderError "secret value is empty") else return value

structure MountedFileSecretProvider where
  maxBytes : Nat
  maxBytes_pos : 0 < maxBytes

namespace MountedFileSecretProvider

/-- What `retrieve` makes of the entry it opens. It reads one byte more than it accepts. -/
def read (provider : MountedFileSecretProvider) : MountEntry → Except SecretFailure ByteString
  | .unreadable => throw (.secretProviderError "secret retrieval failed")
  | .special => throw (.secretProviderError "secret reference is not a regular file")
  | .regular size content => do
    if provider.maxBytes < size then
      throw (.secretProviderError "secret value exceeds configured bound")
    let value := content.take (provider.maxBytes + 1)
    if provider.maxBytes < value.length then
      throw (.secretProviderError "secret value exceeds configured bound")
    secretLease value

/-- `retrieve`. -/
def retrieve (provider : MountedFileSecretProvider) (mount : Mount)
    (reference : SecretReference) : Except SecretFailure ByteString := do
  if reference.provider ≠ "mounted_file" then
    throw (.secretProviderError "secret provider mismatch")
  let filename ← filenameFor reference.externalReference reference.version
  provider.read (mount filename)

end MountedFileSecretProvider

/-! ## File names -/

namespace MountedFileSecretProvider
variable {component filename : Text}

lemma lt_of_isReference (h : isReference component = true) : ∀ c ∈ component, c < 128 := by
  have alphanumeric : ∀ c, isAlphanumeric c = true → c < 128 := by
    intro c hc
    simp only [isAlphanumeric, Text.within, Bool.or_eq_true, Bool.and_eq_true, decide_eq_true_eq]
      at hc
    have := (by decide : 'Z'.toNat = 90 ∧ 'z'.toNat = 122 ∧ '9'.toNat = 57)
    omega
  have other : ∀ c, Text.among "._-" c = true → c < 128 := by
    intro c hc
    have : c = 46 ∨ c = 95 ∨ c = 45 := by simpa [Text.among, text] using hc
    omega
  cases component with
  | nil => exact fun _ => nofun
  | cons c rest =>
    simp only [isReference, Bool.and_eq_true, List.all_eq_true, Bool.or_eq_true] at h
    intro d hd
    rcases List.mem_cons.mp hd with rfl | hd
    · exact alphanumeric d h.1.1
    · exact (h.2 d hd).elim (alphanumeric d) (other d)

/-- The encoding of a component in ASCII. -/
def encoded (component : Text) : Text :=
  (stripPadding (urlsafeB64encode (component.map .ofNat))).map Char.toNat

/-- The characters of an encoded component. -/
lemma safe_of_mem_encoded {c : Nat} (h : c ∈ encoded component) :
    c < 128 ∧ c ≠ 0x2e ∧ c ≠ 0x2f ∧ c ≠ 0 := by
  have all : ∀ n : Fin 64, (toUrlSafe (sextetChar n)).toNat < 128 ∧
      (toUrlSafe (sextetChar n)).toNat ≠ 0x2e ∧ (toUrlSafe (sextetChar n)).toNat ≠ 0x2f ∧
      (toUrlSafe (sextetChar n)).toNat ≠ 0 := by
    decide +kernel
  obtain ⟨d, hd, rfl⟩ := List.mem_map.mp h
  obtain ⟨n, hn, rfl⟩ := mem_urlsafe_stripped hd
  exact all ⟨n, hn⟩

lemma encoded_injective {component' : Text} (h : isReference component = true)
    (h' : isReference component' = true) (same : encoded component = encoded component') :
    component = component' := by
  have stripped := List.map_injective_iff.mpr (fun _ _ => Char.toNat_inj.mp) same
  have bytes := urlsafe_stripped_injective stripped
  -- Both are ASCII, so the bytes are the characters.
  have back : ∀ value : Text, isReference value = true →
      (value.map UInt8.ofNat).map UInt8.toNat = value := by
    intro value hvalue
    rw [List.map_map]
    conv_rhs => rw [← List.map_id value]
    apply List.map_congr_left
    intro c hc
    have small := lt_of_isReference hvalue c hc
    exact UInt8.toNat_ofNat_of_lt (small.trans (by decide))
  rw [← back component h, bytes, back component' h']

/-- The names that are given, and to what. -/
lemma filenameFor_eq_ok {externalReference version : Text} :
    filenameFor externalReference version = .ok filename ↔
      isReference externalReference = true ∧ isReference version = true ∧
        filename = encoded externalReference ++ 0x2e :: encoded version ∧
        filename.length ≤ maxFilenameBytes := by
  have component (value : Text) (h : isReference value = true) :
      encodeComponent value = .ok (encoded value) := by
    rw [encodeComponent, encode_of_ascii (lt_of_isReference h), encoded]
  have dot : text "." = [0x2e] := by decide
  by_cases hr : isReference externalReference = true
  · by_cases hv : isReference version = true
    · have ascii : ∀ c ∈ encoded externalReference ++ 0x2e :: encoded version, c < 128 := by
        intro c hc
        rcases List.mem_append.mp hc with hc | hc
        · exact (safe_of_mem_encoded hc).1
        · rcases List.mem_cons.mp hc with rfl | hc
          · decide
          · exact (safe_of_mem_encoded hc).1
      have bytes := encodeAscii_eq_some ascii
      have run : filenameFor externalReference version =
          if maxFilenameBytes < (encoded externalReference ++ 0x2e :: encoded version).length then
            .error invalidSecretReference
          else .ok (encoded externalReference ++ 0x2e :: encoded version) := by
        simp only [filenameFor, hr, hv, component _ hr, component _ hv, dot, List.append_assoc,
          List.singleton_append, bytes, List.length_map, Bind.bind, Except.bind,
          Bool.true_eq_false, or_self, if_false]
        split_ifs <;> rfl
      rw [run]
      split_ifs with long
      · simp only [false_iff]
        rintro ⟨-, -, rfl, short⟩
        omega
      · simp only [Except.ok.injEq, hr, hv, true_and]
        constructor
        · rintro rfl
          exact ⟨rfl, Nat.le_of_not_lt long⟩
        · exact fun h => h.1.symm
    · simp [filenameFor, hv, throw, throwThe, MonadExceptOf.throw, Bind.bind, Except.bind]
  · simp [filenameFor, hr, throw, throwThe, MonadExceptOf.throw, Bind.bind, Except.bind]

/-- The name of the file tells the reference and the version. -/
lemma filenameFor_injective {reference version reference' version' : Text}
    (h : filenameFor reference version = .ok filename)
    (h' : filenameFor reference' version' = .ok filename) :
    reference = reference' ∧ version = version' := by
  obtain ⟨hr, hv, rfl, -⟩ := filenameFor_eq_ok.mp h
  obtain ⟨hr', hv', same, -⟩ := filenameFor_eq_ok.mp h'
  -- The first dot of the name is the one between the two.
  have cut : ∀ before after : Text, (∀ c ∈ before, c ≠ 0x2e) →
      (before ++ 0x2e :: after).takeWhile (· != 0x2e) = before := by
    intro before after none
    rw [List.takeWhile_append_of_pos (by simpa using none)]
    simp
  have safe (value : Text) : ∀ c ∈ encoded value, c ≠ 0x2e :=
    fun c hc => (safe_of_mem_encoded hc).2.1
  have first : encoded reference = encoded reference' := by
    rw [← cut (encoded reference) (encoded version) (safe reference), same,
      cut (encoded reference') (encoded version') (safe reference')]
  rw [first, List.append_cancel_left_eq, List.cons.injEq] at same
  exact ⟨encoded_injective hr hr' first, encoded_injective hv hv' same.2⟩

lemma two_le_length_encoded (h : isReference component = true) :
    2 ≤ (encoded component).length := by
  have nonempty : 0 < component.length := by
    cases component with
    | nil => cases h
    | cons => simp
  rw [encoded, List.length_map, (urlsafe_stripped _).1, List.length_map]
  omega

/-- File names are injective and stay in their directory. -/
theorem filename_for_injective_and_safe :
    (∀ reference version reference' version' filename,
      filenameFor reference version = .ok filename →
      filenameFor reference' version' = .ok filename →
      reference = reference' ∧ version = version') ∧
    ∀ reference version filename, filenameFor reference version = .ok filename →
      (∃ bytes, encode filename = some bytes ∧ bytes.length ≤ 255) ∧
      filename.count '.'.toNat = 1 ∧ '/'.toNat ∉ filename ∧ 0 ∉ filename ∧
      filename ≠ text "." ∧ filename ≠ text ".." := by
  refine ⟨fun _ _ _ _ _ => filenameFor_injective, ?_⟩
  intro reference version filename h
  obtain ⟨hr, hv, rfl, short⟩ := filenameFor_eq_ok.mp h
  have chars : ∀ c ∈ encoded reference ++ 0x2e :: encoded version, c < 128 ∧ c ≠ 0x2f ∧ c ≠ 0 := by
    intro c hc
    simp only [List.mem_append, List.mem_cons] at hc
    rcases hc with hc | rfl | hc
    · exact ⟨(safe_of_mem_encoded hc).1, (safe_of_mem_encoded hc).2.2⟩
    · decide
    · exact ⟨(safe_of_mem_encoded hc).1, (safe_of_mem_encoded hc).2.2⟩
  have long : 5 ≤ (encoded reference ++ 0x2e :: encoded version).length := by
    have := two_le_length_encoded hr
    have := two_le_length_encoded hv
    simp only [List.length_append, List.length_cons]
    omega
  have dotless (value : Text) : (encoded value).count 0x2e = 0 :=
    List.count_eq_zero.mpr fun hc => (safe_of_mem_encoded hc).2.1 rfl
  refine ⟨⟨_, encode_of_ascii fun c hc => (chars c hc).1, ?_⟩, ?_, ?_, ?_, ?_, ?_⟩
  · rw [List.length_map]
    exact short
  · have dot : '.'.toNat = 0x2e := by decide
    rw [dot, List.count_append, List.count_cons_self, dotless, dotless]
  · exact fun hc => (chars _ hc).2.1 (by decide)
  · exact fun hc => (chars _ hc).2.2 rfl
  · intro same
    rw [same] at long
    exact absurd long (by decide)
  · intro same
    rw [same] at long
    exact absurd long (by decide)

/-- The two ways to put a dot into one text are two files. -/
theorem filename_for_injective_and_safe_dotted :
    filenameFor (text "api") (text "token.v1") = .ok (text "YXBp.dG9rZW4udjE") ∧
    filenameFor (text "api.token") (text "v1") = .ok (text "YXBpLnRva2Vu.djE") ∧
    (text "YXBp.dG9rZW4udjE").count '.'.toNat = 1 ∧
    text "YXBp.dG9rZW4udjE" ≠ text "YXBpLnRva2Vu.djE" := by
  have first : filenameFor (text "api") (text "token.v1") = .ok (text "YXBp.dG9rZW4udjE") := by
    decide +kernel
  have second : filenameFor (text "api.token") (text "v1") = .ok (text "YXBpLnRva2Vu.djE") := by
    decide +kernel
  have safe := filename_for_injective_and_safe.2 _ _ _ first
  refine ⟨first, second, safe.2.1, fun same => ?_⟩
  rw [← same] at second
  have equal := filename_for_injective_and_safe.1 _ _ _ _ _ first second
  exact absurd equal.1 (by decide)

/-! ## Isolation -/

/-- Whatever happens to the file of one reference, another reference retrieves what it did. -/
theorem retrieve_of_other {reference other : SecretReference} (provider : MountedFileSecretProvider)
    (mount : Mount) (entry : MountEntry)
    (named : filenameFor other.externalReference other.version = .ok filename)
    (differs : (reference.externalReference, reference.version) ≠
      (other.externalReference, other.version)) :
    provider.retrieve (Function.update mount filename entry) reference =
      provider.retrieve mount reference := by
  unfold retrieve
  cases own : filenameFor reference.externalReference reference.version with
  | error e => rfl
  | ok filename' =>
    have apart : filename' ≠ filename := by
      rintro rfl
      obtain ⟨same, same'⟩ := filenameFor_injective own named
      exact differs (by rw [same, same'])
    simp only [Bind.bind, Except.bind, Function.update_of_ne apart]

/-- What is retrieved is not empty and within the bound. -/
theorem retrieve_bounded {reference : SecretReference} {provider : MountedFileSecretProvider}
    {mount : Mount} {value : ByteString} (h : provider.retrieve mount reference = .ok value) :
    value ≠ [] ∧ value.length ≤ provider.maxBytes := by
  have read : ∃ filename, provider.read (mount filename) = .ok value := by
    unfold retrieve at h
    split_ifs at h
    · cases h
    · cases named : filenameFor reference.externalReference reference.version with
      | error e =>
        rw [named] at h
        cases h
      | ok filename =>
        rw [named] at h
        exact ⟨filename, h⟩
  obtain ⟨filename, read⟩ := read
  cases entry : mount filename with
  | unreadable | special =>
    rw [entry] at read
    cases read
  | regular size content =>
    simp only [entry, MountedFileSecretProvider.read, secretLease] at read
    by_cases large : provider.maxBytes < size
    · rw [if_pos large] at read
      cases read
    rw [if_neg large] at read
    by_cases long : provider.maxBytes < (content.take (provider.maxBytes + 1)).length
    · rw [if_pos long] at read
      cases read
    rw [if_neg long] at read
    by_cases empty : (content.take (provider.maxBytes + 1)).isEmpty = true
    · rw [if_pos empty] at read
      cases read
    rw [if_neg empty] at read
    cases read
    exact ⟨fun none => empty (by rw [none]; rfl), Nat.le_of_not_lt long⟩

/-- The deployment writes the file of a reference, new or not. -/
def project (mount : Mount) (write : SecretReference × MountEntry) : Mount :=
  match filenameFor write.1.externalReference write.1.version with
  | .ok filename => Function.update mount filename write.2
  | .error _ => mount

lemma retrieve_project {reference : SecretReference} {write : SecretReference × MountEntry}
    (provider : MountedFileSecretProvider) (mount : Mount)
    (differs : (reference.externalReference, reference.version) ≠
      (write.1.externalReference, write.1.version)) :
    provider.retrieve (project mount write) reference = provider.retrieve mount reference := by
  unfold project
  cases named : filenameFor write.1.externalReference write.1.version with
  | error e => rfl
  | ok filename => exact retrieve_of_other provider mount write.2 named differs

lemma retrieve_foldl_project {reference : SecretReference}
    {writes : List (SecretReference × MountEntry)} (provider : MountedFileSecretProvider)
    (mount : Mount) (differs : ∀ write ∈ writes,
      (reference.externalReference, reference.version) ≠
        (write.1.externalReference, write.1.version)) :
    provider.retrieve (writes.foldl project mount) reference =
      provider.retrieve mount reference := by
  induction writes generalizing mount with
  | nil => rfl
  | cons write writes ih =>
    rw [List.foldl_cons, ih _ fun write' mem => differs write' (List.mem_cons_of_mem _ mem)]
    exact retrieve_project provider mount (differs write List.mem_cons_self)

/-- A secret is what was last written for its own reference, whatever stood there before and
whatever has been written for other references since. -/
theorem rotation_current_and_isolated {reference : SecretReference} {filename : Text}
    (provider : MountedFileSecretProvider) (mount : Mount)
    (before after : List (SecretReference × MountEntry)) (entry : MountEntry)
    (mounted : reference.provider = "mounted_file")
    (named : filenameFor reference.externalReference reference.version = .ok filename)
    (others : ∀ write ∈ after, (reference.externalReference, reference.version) ≠
      (write.1.externalReference, write.1.version)) :
    let latest := (before ++ (reference, entry) :: after).foldl project mount
    provider.retrieve latest reference = provider.read entry ∧
      ∀ value, provider.retrieve latest reference = .ok value →
        value ≠ [] ∧ value.length ≤ provider.maxBytes := by
  refine ⟨?_, fun value => retrieve_bounded⟩
  rw [List.foldl_append, List.foldl_cons, retrieve_foldl_project provider _ others]
  unfold retrieve project
  simp [mounted, named, Bind.bind, Except.bind]

namespace Sample

def provider : MountedFileSecretProvider := ⟨64, by decide⟩
def rotated : SecretReference := ⟨"mounted_file", text "api", text "token.v1"⟩
def other : SecretReference := ⟨"mounted_file", text "api.token", text "v1"⟩
def before : List (SecretReference × MountEntry) := [(rotated, .special)]
def after : List (SecretReference × MountEntry) := [(other, .unreadable)]

end Sample

/-- The reference with the dot elsewhere is written since, and does not matter. -/
theorem rotation_current_and_isolated_dotted :
    Sample.provider.retrieve ((Sample.before ++
      (Sample.rotated, MountEntry.regular 2 [104, 105]) :: Sample.after).foldl project
        fun _ => .unreadable) Sample.rotated = .ok [104, 105] := by
  have named : filenameFor Sample.rotated.externalReference Sample.rotated.version =
      .ok (text "YXBp.dG9rZW4udjE") := by decide +kernel
  have differs : Sample.rotated.externalReference ≠ Sample.other.externalReference := by decide
  refine (rotation_current_and_isolated Sample.provider _ _ _ _ rfl named ?_).1.trans rfl
  intro write mem
  rw [List.mem_singleton.mp mem]
  exact fun same => differs (Prod.mk.inj same).1

end MountedFileSecretProvider

end Modall
