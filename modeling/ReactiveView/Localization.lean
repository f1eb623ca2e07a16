import ReactiveView.Text.Slice

/-!
# Translation and assets

What a host supplies to make texts and addresses final: translations of texts that begin with `#`,
and the place from which the assets of components are served.
-/

namespace ReactiveView

/-- Translations of texts. -/
structure Translator where
  /-- The translations that are known, by text. -/
  entries : List (String × String) := []
  /-- A text whose translation is taken as a request to cancel. -/
  cancelOn : Option String := none
deriving Repr

/-- The translation of a text; an unknown one loses its sigil. -/
def Translator.translate (t : Translator) (text : String) : String :=
  match t.entries.find? (·.1 = text) with
  | some (_, translation) => translation
  | none =>
    match text.toList with
    | '#' :: rest => String.ofList rest
    | _ => text

/-- The address of an asset of a component: absolute paths and addresses with a scheme stay. -/
def assetAddress (base component path : String) : String :=
  let cs := path.toList
  if cs.head? = some '/' ∨ (Text.splitAt? [':', '/', '/'] cs).isSome then path
  else base ++ "/" ++ component ++ "/" ++ path

end ReactiveView
