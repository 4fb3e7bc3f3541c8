import ValueNames.Text.Basic

/-!
# The bytes of a text

Files hold bytes. A text is written as its UTF-8 form, and bytes are a text
only if they are the UTF-8 form of one.

## Main results

* `ofBytes?_eq_some_iff` — bytes are read as a text exactly when they are the
  bytes of that text.
-/

namespace ValueNames.Text

/-- The UTF-8 form of a text. -/
def bytes (s : Text) : ByteArray := (String.ofList s).toByteArray

/-- The text that the bytes are the UTF-8 form of. -/
def ofBytes? (content : ByteArray) : Option Text := (String.fromUTF8? content).map String.toList

theorem ofBytes?_bytes (s : Text) : ofBytes? (bytes s) = some s := by
  have hValid : (bytes s).IsValidUTF8 := (String.ofList s).isValidUTF8
  have hRead : String.fromUTF8? (bytes s) = some (String.ofList s) := by
    simp only [String.fromUTF8?, hValid, dite_true]
    rfl
  simp [ofBytes?, hRead]

theorem ofBytes?_eq_some_iff {content : ByteArray} {s : Text} :
    ofBytes? content = some s ↔ content = bytes s := by
  constructor
  · intro h
    obtain ⟨string, hRead, rfl⟩ := Option.map_eq_some_iff.mp h
    unfold String.fromUTF8? at hRead
    split at hRead
    · cases hRead
      simp [bytes, String.ofList_toList, String.fromUTF8]
    · cases hRead
  · rintro rfl
    exact ofBytes?_bytes s

end ValueNames.Text
