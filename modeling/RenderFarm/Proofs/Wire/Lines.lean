import RenderFarm.Wire.Frame

/-!
# RenderFarm.Proofs.Wire.Lines

The lines of a stream. A stream is cut at its newlines before it is known to be text; this is no
harm, since in UTF-8 no other character has the byte of a newline in it.

* `linesOf_append`: a newline separates what is before it from what is after it.
* `textOf?_eq_some`: a line says a text if it is the bytes of that text.
* `textOf?_of_mem_linesOf`: the lines of a text are texts.
* `requests_append`: lines that are texts do not affect the lines after them.
* `Asks`, `asks_iff`: what a server is asked that takes one line of the stream after the other.
-/

namespace RenderFarm

namespace Text

variable {α β : Type} [DecidableEq α] [DecidableEq β]

theorem split_append_sep (sep : α) (as bs : List α) :
    split sep (as ++ sep :: bs) = split sep as ++ split sep bs := by
  induction as with
  | nil => simp [split]
  | cons a as ih =>
    simp only [List.cons_append, split, ih]
    split
    · rfl
    · cases hs : split sep as with
      | nil => exact absurd hs (split_ne_nil sep as)
      | cons p ps => rfl

theorem split_of_not_mem {sep : α} {as : List α} (h : sep ∉ as) : split sep as = [as] := by
  induction as with
  | nil => rfl
  | cons a as ih =>
    have ha : a ≠ sep := fun e => h (e ▸ List.mem_cons_self)
    simp only [split, ha, if_false, ih fun hm => h (List.mem_cons_of_mem _ hm)]

theorem split_append_of_not_mem {sep : α} {as bs part : List α} {parts : List (List α)}
    (h : sep ∉ as) (hs : split sep bs = part :: parts) :
    split sep (as ++ bs) = (as ++ part) :: parts := by
  induction as with
  | nil => exact hs
  | cons a as ih =>
    have ha : a ≠ sep := fun e => h (e ▸ List.mem_cons_self)
    simp only [List.cons_append, split, ha, if_false, ih fun hm => h (List.mem_cons_of_mem _ hm)]

/-- A code in which only the separator has the code of the separator in it can be cut before or
after it is read. -/
theorem split_flatMap {sep : α} {sep' : β} {code : α → List β} (hsep : code sep = [sep'])
    (hcode : ∀ a, a ≠ sep → sep' ∉ code a) (as : List α) :
    split sep' (as.flatMap code) = (split sep as).map (List.flatMap code) := by
  induction as with
  | nil => rfl
  | cons a as ih =>
    rw [List.flatMap_cons]
    by_cases ha : a = sep
    · subst ha
      simp [hsep, split, ih]
    · cases hs : split sep as with
      | nil => exact absurd hs (split_ne_nil sep as)
      | cons part parts =>
        rw [hs] at ih
        rw [split_append_of_not_mem (hcode a ha) ih]
        simp [split, ha, hs]

end Text

namespace Wire

/-! ## Texts -/

/-- The bytes of a text. -/
def bytesOf (cs : List Char) : List UInt8 := cs.flatMap String.utf8EncodeChar

theorem utf8Encode_eq (cs : List Char) : cs.utf8Encode = ⟨(bytesOf cs).toArray⟩ :=
  ByteArray.ext List.data_toByteArray

theorem textOf?_eq_some {l : Line} {cs : List Char} : textOf? l = some cs ↔ l = bytesOf cs := by
  have decoded (hv : ByteArray.IsValidUTF8 ⟨l.toArray⟩) :
      (String.fromUTF8 ⟨l.toArray⟩ hv).toList = cs ↔ l = bytesOf cs := by
    rw [← String.ofList_inj, String.ofList_toList, ← String.toByteArray_inj,
      String.toByteArray_ofList, utf8Encode_eq]
    simp [String.fromUTF8, ByteArray.ext_iff]
  simp only [textOf?, String.fromUTF8?]
  split
  case isTrue hv => simpa using decoded hv
  case isFalse hv =>
    simp only [Option.map_none, reduceCtorEq, false_iff]
    rintro rfl
    exact hv ⟨cs, (utf8Encode_eq cs).symm⟩

/-- No character but the newline has the byte of a newline in it. -/
theorem newline_not_mem {c : Char} (h : c ≠ '\n') : 10 ∉ String.utf8EncodeChar c := by
  have hv : c.val.toNat ≠ 10 := fun e => h (Char.ext (UInt32.toNat_inj.1 e))
  simp only [String.utf8EncodeChar]
  generalize c.val.toNat = v at hv
  split
  · simp [← UInt8.toNat_inj]; omega
  split
  · simp [← UInt8.toNat_inj]; omega
  split
  · simp [← UInt8.toNat_inj]; omega
  · simp [← UInt8.toNat_inj]; omega

theorem linesOf_bytesOf (cs : List Char) :
    linesOf (bytesOf cs) = (Text.split '\n' cs).map bytesOf :=
  have code : String.utf8EncodeChar '\n' = [10] := by decide
  Text.split_flatMap code (fun _ h => newline_not_mem h) cs

/-- The lines of a text are texts. -/
theorem textOf?_of_mem_linesOf {bytes : List UInt8} (h : textOf? bytes ≠ none) {l : Line}
    (hl : l ∈ linesOf bytes) : textOf? l ≠ none := by
  obtain ⟨cs, hcs⟩ := Option.ne_none_iff_exists'.1 h
  rw [textOf?_eq_some.1 hcs, linesOf_bytesOf] at hl
  obtain ⟨part, -, rfl⟩ := List.mem_map.1 hl
  simp [textOf?_eq_some.2 rfl]

/-! ## Line by line -/

theorem linesOf_append (l rest : List UInt8) :
    linesOf (l ++ 10 :: rest) = linesOf l ++ linesOf rest :=
  Text.split_append_sep 10 l rest

theorem linesOf_line {l : Line} (h : 10 ∉ l) : linesOf l = [l] :=
  Text.split_of_not_mem h

/-- The next line of a stream, and what comes after it. The last line may be without a newline. -/
inductive NextLine : List UInt8 → Line → List UInt8 → Prop
  | ended {l : Line} (h : 10 ∉ l) (rest : List UInt8) : NextLine (l ++ 10 :: rest) l rest
  | last {l : Line} (h : 10 ∉ l) (hl : l ≠ []) : NextLine l l []

/-- Until the stream is over there is a next line, and taking it makes the stream shorter. -/
theorem exists_nextLine {bytes : List UInt8} (h : bytes ≠ []) :
    ∃ l rest, NextLine bytes l rest ∧ rest.length < bytes.length := by
  by_cases hm : 10 ∈ bytes
  · obtain ⟨l, rest, rfl, hl⟩ := List.eq_append_cons_of_mem hm
    refine ⟨l, rest, .ended hl rest, ?_⟩
    rw [List.length_append, List.length_cons]
    omega
  · exact ⟨bytes, [], .last hm h, List.length_pos_iff.2 h⟩

/-! ## What a line says -/

section

variable {α : Type} {d : Json.Decoder α} {l : Line} {cs : List Char}

theorem readLine_garbled (h : textOf? l = none) : readLine d l = .garbled := by
  simp only [readLine, h]

theorem readLine_blank (h : textOf? l = some cs) (hb : cs.all Text.isBlank = true) :
    readLine d l = .blank := by
  simp only [readLine, h, hb, if_true]

theorem readLine_frame {a : α} (h : textOf? l = some cs) (hb : cs.all Text.isBlank = false)
    (ha : Json.decodeText d (Text.trimEnd cs) = .ok a) : readLine d l = .frame a := by
  simp only [readLine, h, hb, Bool.false_eq_true, if_false, ha]

theorem readLine_malformed {f : Json.Fault} (h : textOf? l = some cs)
    (hb : cs.all Text.isBlank = false) (hf : Json.decodeText d (Text.trimEnd cs) = .error f) :
    readLine d l = .malformed f := by
  simp only [readLine, h, hb, Bool.false_eq_true, if_false, hf]

theorem readLine_nil : readLine d [] = .blank :=
  readLine_blank (textOf?_eq_some.2 (show [] = bytesOf [] from rfl)) rfl

theorem readLine_ne_garbled (h : textOf? l ≠ none) : readLine d l ≠ .garbled := by
  obtain ⟨cs, hcs⟩ := Option.ne_none_iff_exists'.1 h
  simp only [readLine, hcs]
  split
  · nofun
  · split <;> nofun

end

/-! ## Requests -/

theorem requests_nextLine {bytes rest : List UInt8} {l : Line} (h : NextLine bytes l rest) :
    requests (linesOf bytes) = requests (l :: linesOf rest) := by
  cases h with
  | ended h rest => rw [linesOf_append, linesOf_line h, List.singleton_append]
  | last h hl =>
    -- After the last line there is an empty one, which is blank.
    rw [linesOf_line h, linesOf_line List.not_mem_nil]
    simp only [requests, readLine_nil]

/-- Lines that are texts do not affect the lines after them. -/
theorem requests_append {ls : List Line} (h : ∀ l ∈ ls, textOf? l ≠ none) (more : List Line) :
    requests (ls ++ more) = requests ls ++ requests more := by
  induction ls with
  | nil => rfl
  | cons l ls ih =>
    have ih := ih fun l' hl' => h l' (List.mem_cons_of_mem _ hl')
    simp only [List.cons_append, requests, ih]
    cases hr : readLine Request.decoder l with
    | garbled => exact absurd hr (readLine_ne_garbled (h l List.mem_cons_self))
    | blank => rfl
    | malformed f => rfl
    | frame r => rfl

/-- What a server that reads a stream line by line is asked: it stops at the end of the stream or
at the first line that is no text, passes over blank lines and lines that are no request, and
takes every other line as a request. -/
inductive Asks : List UInt8 → List Request → Prop
  | done : Asks [] []
  | garbled {bytes rest : List UInt8} {l : Line} (next : NextLine bytes l rest)
      (text : ∀ cs, l ≠ bytesOf cs) : Asks bytes []
  | blank {bytes rest : List UInt8} {cs : List Char} {rs : List Request}
      (next : NextLine bytes (bytesOf cs) rest) (blank : ∀ c ∈ cs, Text.isBlank c = true)
      (more : Asks rest rs) : Asks bytes rs
  | malformed {bytes rest : List UInt8} {cs : List Char} {f : Json.Fault} {rs : List Request}
      (next : NextLine bytes (bytesOf cs) rest) (said : ∃ c ∈ cs, Text.isBlank c = false)
      (fault : Json.decodeText Request.decoder (Text.trimEnd cs) = .error f)
      (more : Asks rest rs) : Asks bytes rs
  | asked {bytes rest : List UInt8} {cs : List Char} {r : Request} {rs : List Request}
      (next : NextLine bytes (bytesOf cs) rest) (said : ∃ c ∈ cs, Text.isBlank c = false)
      (request : Json.decodeText Request.decoder (Text.trimEnd cs) = .ok r)
      (more : Asks rest rs) : Asks bytes (r :: rs)

theorem textOf?_bytesOf (cs : List Char) : textOf? (bytesOf cs) = some cs :=
  textOf?_eq_some.2 rfl

theorem Asks.requests_eq {bytes : List UInt8} {rs : List Request} (h : Asks bytes rs) :
    rs = requests (linesOf bytes) := by
  induction h with
  | done => simp only [linesOf_line List.not_mem_nil, requests, readLine_nil]
  | garbled next text =>
    have none : textOf? _ = none := Option.eq_none_iff_forall_ne_some.2 fun cs hcs =>
      text cs (textOf?_eq_some.1 hcs)
    simp only [requests_nextLine next, requests, readLine_garbled none]
  | blank next blank _ ih =>
    have read := readLine_blank (d := Request.decoder) (textOf?_bytesOf _) (List.all_eq_true.2 blank)
    simp only [requests_nextLine next, requests, read, ih]
  | malformed next said fault _ ih =>
    have read := readLine_malformed (textOf?_bytesOf _) (by simpa using said) fault
    simp only [requests_nextLine next, requests, read, ih]
  | asked next said request _ ih =>
    have read := readLine_frame (textOf?_bytesOf _) (by simpa using said) request
    simp only [requests_nextLine next, requests, read, ih]

/-- By induction on the length of the stream, which every line makes shorter. -/
theorem exists_asks (bytes : List UInt8) : ∃ rs, Asks bytes rs := by
  induction hn : bytes.length using Nat.strongRecOn generalizing bytes with
  | ind n ih =>
    by_cases hb : bytes = []
    · exact ⟨[], hb ▸ .done⟩
    obtain ⟨l, rest, next, shorter⟩ := exists_nextLine hb
    obtain ⟨rs, more⟩ := ih rest.length (hn ▸ shorter) rest rfl
    cases ht : textOf? l with
    | none =>
      refine ⟨[], .garbled next fun cs hl => ?_⟩
      rw [hl, textOf?_bytesOf] at ht
      cases ht
    | some cs =>
      obtain rfl := textOf?_eq_some.1 ht
      by_cases blank : ∀ c ∈ cs, Text.isBlank c = true
      · exact ⟨rs, .blank next blank more⟩
      have said : ∃ c ∈ cs, Text.isBlank c = false := by simpa using blank
      cases hd : Json.decodeText Request.decoder (Text.trimEnd cs) with
      | error f => exact ⟨rs, .malformed next said hd more⟩
      | ok r => exact ⟨r :: rs, .asked next said hd more⟩

theorem asks_iff {bytes : List UInt8} {rs : List Request} :
    Asks bytes rs ↔ rs = requests (linesOf bytes) := by
  refine ⟨Asks.requests_eq, ?_⟩
  rintro rfl
  obtain ⟨rs, h⟩ := exists_asks bytes
  exact h.requests_eq ▸ h

end Wire
end RenderFarm
