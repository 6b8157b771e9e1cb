/-!
# Text measured in UTF-8 bytes

Places in a source are byte offsets, while the text itself is handled as a list of
characters. `byteLength` is the size of a text, and `takeBytes?` cuts a text at a byte
offset, which fails exactly inside a character.

* `byteLength_toList`: the measure agrees with the size of a string.
* `takeBytes?_append`: cutting after a first part gives that part back.
* `takeBytes?_eq_self`: at the end and beyond it the whole text is taken.
-/

namespace Bukvar.Text

/-- Number of bytes that the UTF-8 form of a text takes. -/
def byteLength : List Char → Nat
  | [] => 0
  | c :: cs => c.utf8Size + byteLength cs

@[simp] theorem byteLength_nil : byteLength [] = 0 := rfl

@[simp] theorem byteLength_cons (c : Char) (cs : List Char) :
    byteLength (c :: cs) = c.utf8Size + byteLength cs := rfl

@[simp] theorem byteLength_append (as bs : List Char) :
    byteLength (as ++ bs) = byteLength as + byteLength bs := by
  induction as with
  | nil => simp
  | cons c cs ih => simp [ih, Nat.add_assoc]

theorem byteLength_ofList (cs : List Char) :
    (String.ofList cs).utf8ByteSize = byteLength cs := by
  induction cs with
  | nil => rfl
  | cons c cs ih =>
    have h : String.ofList (c :: cs) = String.singleton c ++ String.ofList cs := by
      apply String.toList_injective
      simp
    rw [h, String.utf8ByteSize_append, ih]
    simp

theorem byteLength_toList (s : String) : byteLength s.toList = s.utf8ByteSize := by
  rw [← byteLength_ofList, String.ofList_toList]

/-- The characters before a byte offset, `none` when the offset lies inside a character.
An offset beyond the end counts as the end. -/
def takeBytes? : List Char → Nat → Option (List Char)
  | [], _ => some []
  | c :: cs, offset =>
    if offset = 0 then some []
    else if offset < c.utf8Size then none
    else (takeBytes? cs (offset - c.utf8Size)).map (c :: ·)

@[simp] theorem takeBytes?_nil (offset : Nat) : takeBytes? [] offset = some [] := rfl

@[simp] theorem takeBytes?_zero (cs : List Char) : takeBytes? cs 0 = some [] := by
  cases cs <;> simp [takeBytes?]

theorem takeBytes?_append (before after : List Char) :
    takeBytes? (before ++ after) (byteLength before) = some before := by
  induction before with
  | nil => simp
  | cons c cs ih =>
    have hc : 0 < c.utf8Size := c.utf8Size_pos
    have h0 : ¬ c.utf8Size + byteLength cs = 0 := by omega
    have hlt : ¬ c.utf8Size + byteLength cs < c.utf8Size := by omega
    have hsub : c.utf8Size + byteLength cs - c.utf8Size = byteLength cs := by omega
    rw [List.cons_append, byteLength_cons, takeBytes?, if_neg h0, if_neg hlt, hsub, ih]
    rfl

theorem takeBytes?_eq_self (cs : List Char) (offset : Nat) (h : byteLength cs ≤ offset) :
    takeBytes? cs offset = some cs := by
  induction cs generalizing offset with
  | nil => rfl
  | cons c cs ih =>
    simp only [byteLength_cons] at h
    have hc : 0 < c.utf8Size := c.utf8Size_pos
    have h0 : ¬ offset = 0 := by omega
    have hlt : ¬ offset < c.utf8Size := by omega
    simp [takeBytes?, h0, hlt, ih (offset - c.utf8Size) (by omega)]

end Bukvar.Text
