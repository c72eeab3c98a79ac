import LineGrammar.Text.Offset

/-! The words of a text are its maximal runs of characters that are not blank, each with the
byte offset where it starts. -/

namespace LineGrammar

structure Word where
  start : Nat
  text : Text
deriving DecidableEq, Repr

def Word.stop (w : Word) : Nat :=
  w.start + w.text.byteSize

/-- Puts a character at an offset in front of the words behind it. The character joins the
first of them if nothing lies between, and is a word of its own otherwise. -/
def Word.extend (c : Char) (offset : Nat) : List Word → List Word
  | [] => [⟨offset, [c]⟩]
  | w :: ws =>
    if w.start = offset + c.utf8Size then ⟨offset, c :: w.text⟩ :: ws
    else ⟨offset, [c]⟩ :: w :: ws

def Text.wordsFrom (offset : Nat) : Text → List Word
  | [] => []
  | c :: rest =>
    let later := wordsFrom (offset + c.utf8Size) rest
    if isBlank c then later else Word.extend c offset later

def Text.words (t : Text) : List Word :=
  t.wordsFrom 0

end LineGrammar
