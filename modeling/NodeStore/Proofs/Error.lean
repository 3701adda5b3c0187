import NodeStore.Lmdb.Error
import NodeStore.Proofs.Text

/-!
What the texts of errors tell. The texts of each kind of error start with an opening of
their own, and no opening starts another, so a text tells its kind. Behind the opening
a number goes on to the first character that is no digit, and a field that stands last
is all that is left. Main statement: a text tells the kind of its error, and the error
itself unless two free texts stand side by side in it; and a failure of LMDB is
reported with its whole text behind a front that depends on its kind alone.
-/

namespace NodeStore

namespace Error

/-- The layer of an error and what went wrong there, without the particulars. -/
inductive Kind where
  | storageIo
  | storageBackend
  | decodeOutOfBounds
  | decodeMalformed
  | protocolUnsupportedVersion
  | configInvalidValue
  | configParse

/-- What the texts of a kind start with, up to the first field. -/
def Kind.opening : Kind → String
  | .storageIo => "Storage" ++ " error: " ++ "I/O error: "
  | .storageBackend => "Storage" ++ " error: " ++ "Backend "
  | .decodeOutOfBounds => "Decode" ++ " error: " ++ "Decode position "
  | .decodeMalformed => "Decode" ++ " error: " ++ "Malformed item at offset "
  | .protocolUnsupportedVersion => "Protocol" ++ " error: " ++ "Eth protocol version "
  | .configInvalidValue => "Config" ++ " error: " ++ "Invalid value for "
  | .configParse => "Config" ++ " error: " ++ "Failed to parse configuration: "

def kind : Error → Kind
  | .storage (.io _) => .storageIo
  | .storage (.backend ..) => .storageBackend
  | .decode (.outOfBounds ..) => .decodeOutOfBounds
  | .decode (.malformed ..) => .decodeMalformed
  | .protocol (.unsupportedVersion _) => .protocolUnsupportedVersion
  | .config (.invalidValue ..) => .configInvalidValue
  | .config (.parse _) => .configParse

/-- The text of an error from its first field on. -/
def fields : Error → String
  | .storage (.io reason) => reason
  | .storage (.backend name reason) => name ++ " failed: " ++ reason
  | .decode (.outOfBounds position length) =>
      toString position ++ " is outside of buffer of length " ++ toString length
  | .decode (.malformed position reason) => toString position ++ ": " ++ reason
  | .protocol (.unsupportedVersion version) => toString version.toNat ++ " is not supported"
  | .config (.invalidValue field value reason) => field ++ ": " ++ value ++ " - " ++ reason
  | .config (.parse reason) => reason

theorem message_eq (e : Error) : e.message = e.kind.opening ++ e.fields := by
  -- both sides are the same pieces in the same order, grouped by layer or by field
  cases e with
  | storage cause =>
      cases cause <;>
        unfold message layer causeMessage StorageError.message kind Kind.opening fields <;>
        simp only [String.append_assoc]
  | decode cause =>
      cases cause <;>
        unfold message layer causeMessage DecodeError.message kind Kind.opening fields <;>
        simp only [String.append_assoc]
  | protocol cause =>
      cases cause
      unfold message layer causeMessage ProtocolError.message kind Kind.opening fields
      simp only [String.append_assoc]
  | config cause =>
      cases cause <;>
        unfold message layer causeMessage ConfigError.message kind Kind.opening fields <;>
        simp only [String.append_assoc]

theorem prefixFree_opening : Text.PrefixFree Kind.opening := by
  intro k l h
  cases k <;> cases l <;> simp [Kind.opening] at h ⊢

/-- A text tells the kind of its error, and what the fields spell behind the opening. -/
theorem message_eq_iff {e f : Error} :
    e.message = f.message ↔ e.kind = f.kind ∧ e.fields = f.fields := by
  rw [message_eq, message_eq]
  constructor
  · exact prefixFree_opening.append_inj
  · rintro ⟨hKind, hFields⟩
    rw [hKind, hFields]

/-- The fields can be read back from their text unless two free texts stand side by
side in it. -/
theorem eq_of_fields_eq {e f : Error} (hKind : e.kind = f.kind)
    (hBackend : e.kind ≠ .storageBackend) (hValue : e.kind ≠ .configInvalidValue)
    (h : e.fields = f.fields) : e = f := by
  rcases e with (reason | ⟨name, reason⟩) | (⟨position, length⟩ | ⟨position, reason⟩) |
    ⟨⟨version⟩⟩ | (⟨field, value, reason⟩ | reason) <;>
  rcases f with (reason' | ⟨name', reason'⟩) | (⟨position', length'⟩ | ⟨position', reason'⟩) |
    ⟨⟨version'⟩⟩ | (⟨field', value', reason'⟩ | reason') <;>
  simp only [kind, reduceCtorEq] at hKind
  -- what is left are the seven pairs of one kind
  case storage.io.storage.io =>
    exact congrArg (fun reason => Error.storage (.io reason)) h
  case storage.backend.storage.backend => exact absurd rfl hBackend
  case decode.outOfBounds.decode.outOfBounds =>
    obtain ⟨rfl, hLength⟩ := Text.number_append_inj (by simp) h
    obtain rfl := Nat.repr_injective hLength
    rfl
  case decode.malformed.decode.malformed =>
    obtain ⟨rfl, rfl⟩ := Text.number_append_inj (by simp) h
    rfl
  case protocol.protocol =>
    have hVersion := (String.append_left_inj " is not supported").1 h
    obtain rfl := UInt8.toNat.inj (Nat.repr_injective hVersion)
    rfl
  case config.invalidValue.config.invalidValue => exact absurd rfl hValue
  case config.parse.config.parse =>
    exact congrArg (fun reason => Error.config (.parse reason)) h

theorem message_backend_regroup (name between reason : String) :
    (storage (.backend (name ++ " failed: " ++ between) reason)).message =
      (storage (.backend name (between ++ " failed: " ++ reason))).message :=
  message_eq_iff.2 ⟨rfl, Text.border_moves name between reason " failed: "⟩

theorem message_invalidValue_regroup (field between value reason : String) :
    (config (.invalidValue (field ++ ": " ++ between) value reason)).message =
      (config (.invalidValue field (between ++ ": " ++ value) reason)).message :=
  message_eq_iff.2 ⟨rfl, congrArg (· ++ " - " ++ reason) (Text.border_moves field between value ": ")⟩

/-- The kinds whose texts tell the whole error. -/
theorem message_injective_iff (k : Kind) :
    (∀ e f : Error, e.kind = k → e.message = f.message → e = f) ↔
      k ≠ .storageBackend ∧ k ≠ .configInvalidValue := by
  constructor
  · intro hInjective
    constructor
    · rintro rfl
      have hSame := hInjective _ _ rfl (message_backend_regroup "" "" "")
      simp at hSame
    · rintro rfl
      have hSame := hInjective _ _ rfl (message_invalidValue_regroup "" "" "" "")
      simp at hSame
  · rintro ⟨hBackend, hValue⟩ e f rfl hText
    obtain ⟨hKind, hFields⟩ := message_eq_iff.1 hText
    exact eq_of_fields_eq hKind hBackend hValue hFields

end Error

namespace LmdbError

/-- What failed, without the text that came with it. -/
inductive Kind where
  | envOpen
  | dbOpen
  | transaction
  | io

/-- What the texts of a kind start with. -/
def Kind.opening : Kind → String
  | .envOpen => "Failed to open LMDB environment: "
  | .dbOpen => "Failed to open database: "
  | .transaction => "Transaction error: "
  | .io => "I/O error: "

/-- What a report puts before the text of a failure. -/
def Kind.front : Kind → String
  | .io => "Storage error: "
  | _ => "Storage error: Backend lmdb failed: "

def kind : LmdbError → Kind
  | .envOpen _ => .envOpen
  | .dbOpen _ => .dbOpen
  | .transaction _ => .transaction
  | .io _ => .io

/-- The text that came with a failure. -/
def text : LmdbError → String
  | .envOpen text | .dbOpen text | .transaction text | .io text => text

theorem message_eq (x : LmdbError) : x.message = x.kind.opening ++ x.text := by
  cases x <;> rfl

/-- An error of the store keeps its text when it is converted, behind a front that goes
by its kind. -/
theorem message_toError (x : LmdbError) : x.toError.message = x.kind.front ++ x.message := by
  have hStorage : "Storage" ++ " error: " = "Storage error: " := by decide
  have hBackend : "Storage" ++ " error: " ++ ("Backend " ++ "lmdb" ++ " failed: ") =
      "Storage error: Backend lmdb failed: " := by decide
  have hOther (y : LmdbError) :
      "Storage" ++ " error: " ++ ("Backend " ++ "lmdb" ++ " failed: " ++ y.message) =
        "Storage error: Backend lmdb failed: " ++ y.message := by
    rw [← hBackend]
    exact String.append_assoc.symm
  cases x with
  | envOpen text => exact hOther (.envOpen text)
  | dbOpen text => exact hOther (.dbOpen text)
  | transaction text => exact hOther (.transaction text)
  | io text => exact congrArg (· ++ message (.io text)) hStorage

theorem prefixFree_front_opening : Text.PrefixFree fun k : Kind => k.front ++ k.opening := by
  intro k l h
  cases k <;> cases l <;> simp [Kind.front, Kind.opening] at h ⊢

theorem eq_of_message_toError_eq {x y : LmdbError} (h : x.toError.message = y.toError.message) :
    x.kind = y.kind ∧ x.text = y.text := by
  rw [message_toError, message_toError, message_eq, message_eq, ← String.append_assoc,
    ← String.append_assoc] at h
  exact prefixFree_front_opening.append_inj h

/-- The first character of an opening does not come again in it, nor before it. -/
theorem Kind.opening_eq_cons (k : Kind) :
    ∃ c rest, k.opening.toList = c :: rest ∧ c ∉ rest ∧ c ∉ k.front.toList := by
  cases k <;> simp [opening, front]

theorem occurrences_message_toError (x : LmdbError) :
    Text.occurrences x.kind.opening x.toError.message =
      Text.occurrences x.kind.opening x.text + 1 := by
  obtain ⟨c, rest, hOpening, hRest, hFront⟩ := x.kind.opening_eq_cons
  rw [message_toError, Text.occurrences_append_of_notMem hOpening hFront, message_eq,
    Text.occurrences_append_self hOpening hRest]

end LmdbError

/-- Errors whose texts are equal are of one kind, that is, of one layer and there of
one cause; and they are equal, for all kinds but the two in which two free texts stand
side by side. A failure of LMDB is reported with its own text behind a fixed front, so
that the opening of this text comes once, besides where it comes in the text that came
with the failure; and failures of different kinds or with different texts are reported
with different texts. -/
theorem Error.texts_are_unambiguous :
    (∀ e f : Error, e.message = f.message → e.kind = f.kind) ∧
    (∀ k : Error.Kind, (∀ e f : Error, e.kind = k → e.message = f.message → e = f) ↔
      k ≠ .storageBackend ∧ k ≠ .configInvalidValue) ∧
    (∀ x : LmdbError, x.message = x.kind.opening ++ x.text ∧
      x.toError.message = x.kind.front ++ x.message ∧
      Text.occurrences x.kind.opening x.toError.message =
        Text.occurrences x.kind.opening x.text + 1) ∧
    ∀ x y : LmdbError, x.kind ≠ y.kind ∨ x.text ≠ y.text →
      x.toError.message ≠ y.toError.message := by
  refine ⟨fun e f hText => (Error.message_eq_iff.1 hText).1, Error.message_injective_iff,
    fun x => ⟨x.message_eq, x.message_toError, x.occurrences_message_toError⟩, ?_⟩
  intro x y hDiffer hText
  obtain ⟨hKind, hSame⟩ := LmdbError.eq_of_message_toError_eq hText
  rcases hDiffer with hDiffer | hDiffer
  · exact hDiffer hKind
  · exact hDiffer hSame

/-- Two failures of backends that share a text, a reason that looks like another field,
and failures of LMDB of which one has the text of the other inside its own. -/
theorem Error.texts_are_unambiguous_regrouped :
    let e : Error := .storage (.backend "a" "b failed: c")
    let f : Error := .storage (.backend "a failed: b" "c")
    let g : Error := .decode (.malformed 1 "2: 3")
    let h : Error := .decode (.malformed 1 ("2" ++ ": " ++ "3"))
    let x : LmdbError := .transaction "Failed to open database: full"
    let y : LmdbError := .dbOpen "full"
    e.message = f.message ∧ e.kind = f.kind ∧ g.message = h.message ∧ g = h ∧
      x.kind ≠ y.kind ∧ x.toError.message ≠ y.toError.message := by
  intro e f g h x y
  obtain ⟨hKind, hInjective, -, hApart⟩ := Error.texts_are_unambiguous
  have hShared : e.message = f.message := by decide
  have hRead : g.message = h.message := by decide
  have hKinds : x.kind ≠ y.kind := by simp [x, y, LmdbError.kind]
  exact ⟨hShared, hKind e f hShared, hRead,
    (hInjective .decodeMalformed).2 ⟨by simp, by simp⟩ g h rfl hRead, hKinds,
    hApart x y (.inl hKinds)⟩

end NodeStore
