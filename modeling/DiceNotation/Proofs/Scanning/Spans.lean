import DiceNotation.Token.Scan

/-!
# DiceNotation.Proofs.Scanning.Spans

Bytes and characters. The length of a run in bytes depends on its characters, so
a place in a text is given by what stands before it.

* `byteLength_eq`: the length of a row of characters is that of its text in UTF-8;
* `Span.Covers`, `Span.covers_of_split`: the bytes from what stands before a run
  to its end are the run;
* `mem_locate`, `pairwise_locate`: runs that are located in a text, each after the ones before it;
* `Span.Has`, `exists_char_at`, `mem_of_byte`: the character of a byte, and the run that it is in.
-/

namespace DiceNotation

/-! ## Lengths -/

theorem byteLength_append (first second : List Char) :
    byteLength (first ++ second) = byteLength first + byteLength second := by
  induction first with
  | nil => exact (Nat.zero_add _).symm
  | cons c first ih =>
    show c.utf8Size + byteLength (first ++ second) =
      c.utf8Size + byteLength first + byteLength second
    rw [ih, Nat.add_assoc]

theorem byteLength_pos {cs : List Char} (h : cs ≠ []) : 0 < byteLength cs := by
  cases cs with
  | nil => exact absurd rfl h
  | cons c more => exact Nat.add_pos_left c.utf8Size_pos _

/-- The length of a row of characters is that of its text in UTF-8. -/
theorem byteLength_eq (cs : List Char) : byteLength cs = (String.ofList cs).utf8ByteSize := by
  induction cs with
  | nil => rfl
  | cons c cs ih =>
    show c.utf8Size + byteLength cs = _
    rw [ih, String.ofList_cons, String.utf8ByteSize_append, String.utf8ByteSize_singleton]

/-! ## Spans -/

/-- The bytes of a span are a run of a text, and it begins and ends between characters. -/
structure Span.Covers (span : Span) (text : String) (run : List Char) : Prop where
  nonempty : span.start < span.stop
  start : String.Pos.Raw.IsValid text ⟨span.start⟩
  stop : String.Pos.Raw.IsValid text ⟨span.stop⟩
  bytes : text.toUTF8.extract span.start span.stop = (String.ofList run).toUTF8

/-- The span of a run that stands after others. -/
def spanOf (before run : List Char) : Span :=
  ⟨(String.ofList before).utf8ByteSize, (String.ofList (before ++ run)).utf8ByteSize⟩

theorem spanOf_eq (before run : List Char) :
    spanOf before run = ⟨byteLength before, byteLength before + byteLength run⟩ := by
  rw [spanOf, ← byteLength_eq, ← byteLength_eq, byteLength_append]

/-- The bytes between others. -/
theorem extract_between (first mid last : ByteArray) :
    (first ++ (mid ++ last)).extract first.size (first.size + mid.size) = mid := by
  have hskip : (first ++ (mid ++ last)).extract (first.size + 0) (first.size + mid.size) =
      (mid ++ last).extract 0 mid.size := ByteArray.extract_append_size_add
  rw [Nat.add_zero] at hskip
  rw [hskip, ByteArray.extract_append_eq_left rfl]

/-- **The span of a run covers it.** -/
theorem Span.covers_of_split {text : String} {before run after : List Char} (hne : run ≠ [])
    (h : text.toList = before ++ (run ++ after)) : (spanOf before run).Covers text run := by
  have htext : text = String.ofList before ++ (String.ofList run ++ String.ofList after) := by
    rw [← String.ofList_append, ← String.ofList_append, ← h, String.ofList_toList]
  have hlengths := spanOf_eq before run
  refine ⟨?_, ?_, ?_, ?_⟩
  · rw [hlengths]
    exact Nat.lt_add_of_pos_right (byteLength_pos hne)
  · exact String.Pos.Raw.isValid_iff_exists_append.2 ⟨_, _, htext, rfl⟩
  · rw [← String.append_assoc, ← String.ofList_append] at htext
    exact String.Pos.Raw.isValid_iff_exists_append.2 ⟨_, _, htext, rfl⟩
  · show text.toByteArray.extract (String.ofList before).utf8ByteSize
      (String.ofList (before ++ run)).utf8ByteSize = (String.ofList run).toByteArray
    rw [htext, String.toByteArray_append, String.toByteArray_append, String.ofList_append,
      String.utf8ByteSize_append]
    exact extract_between _ _ _

/-! ## Located runs -/

theorem locate_append (start : Nat) (first rest : List (List Char)) :
    locate start (first ++ rest) =
      locate start first ++ locate (start + byteLength first.flatten) rest := by
  induction first generalizing start with
  | nil => rfl
  | cons run first ih =>
    simp only [List.cons_append, locate, ih, List.flatten_cons, byteLength_append, Nat.add_assoc]

/-- A run is located after those before it. -/
theorem mem_locate {start : Nat} {rs : List (List Char)} {span : Span} {run : List Char}
    (h : (span, run) ∈ locate start rs) :
    ∃ first rest, rs = first ++ run :: rest ∧
      span = ⟨start + byteLength first.flatten,
        start + byteLength first.flatten + byteLength run⟩ := by
  induction rs generalizing start with
  | nil => cases h
  | cons other rs ih =>
    rcases List.mem_cons.1 h with heq | hmore
    · cases heq
      exact ⟨[], rs, rfl, rfl⟩
    · obtain ⟨first, rest, rfl, rfl⟩ := ih hmore
      refine ⟨other :: first, rest, rfl, ?_⟩
      rw [List.flatten_cons, byteLength_append, Nat.add_assoc start]

/-- Located runs do not overlap, and are in order. -/
theorem pairwise_locate (start : Nat) (rs : List (List Char)) :
    (locate start rs).Pairwise fun a b => a.1.stop ≤ b.1.start := by
  induction rs generalizing start with
  | nil => exact .nil
  | cons run rs ih =>
    refine List.pairwise_cons.2 ⟨fun b hb => ?_, ih _⟩
    obtain ⟨first, rest, -, hspan⟩ := mem_locate hb
    rw [hspan]
    exact Nat.le_add_right _ _

/-! ## Bytes -/

/-- A byte that is in a span. -/
def Span.Has (span : Span) (b : Nat) : Prop := span.start ≤ b ∧ b < span.stop

theorem spanOf_has_iff {before run : List Char} {b : Nat} :
    (spanOf before run).Has b ↔
      byteLength before ≤ b ∧ b < byteLength before + byteLength run := by
  rw [spanOf_eq]
  exact Iff.rfl

/-- Every byte is in a character. -/
theorem exists_char_at {cs : List Char} {b : Nat} (h : b < byteLength cs) :
    ∃ before c after, cs = before ++ c :: after ∧ (spanOf before [c]).Has b := by
  simp only [spanOf_has_iff]
  induction cs generalizing b with
  | nil => exact absurd h (Nat.not_lt_zero b)
  | cons c cs ih =>
    by_cases hfirst : b < c.utf8Size
    · exact ⟨[], c, cs, rfl, Nat.zero_le b, by simpa [byteLength] using hfirst⟩
    · have hrest : b - c.utf8Size < byteLength cs := by
        simp only [byteLength] at h
        omega
      obtain ⟨before, d, after, rfl, hle, hlt⟩ := ih hrest
      refine ⟨c :: before, d, after, rfl, ?_, ?_⟩ <;> simp only [byteLength] at hlt ⊢ <;> omega

/-- A character that shares a byte with a run is in it. -/
theorem mem_of_byte {before run after first rest : List Char} {c : Char} {b : Nat}
    (h : first ++ c :: rest = before ++ (run ++ after)) (hchar : (spanOf first [c]).Has b)
    (hrun : (spanOf before run).Has b) : c ∈ run := by
  obtain ⟨hchar, hchar'⟩ := spanOf_has_iff.1 hchar
  obtain ⟨hrun, hrun'⟩ := spanOf_has_iff.1 hrun
  rw [byteLength, byteLength, Nat.add_zero] at hchar'
  rcases List.append_eq_append_iff.1 h with ⟨mid, rfl, hmid⟩ | ⟨mid, rfl, hmid⟩
  · cases mid with
    | nil =>
      -- The run begins with the character, for it is not empty.
      cases run with
      | nil => exact absurd hrun' (by simp [byteLength]; omega)
      | cons d run =>
        cases hmid
        exact List.mem_cons_self
    | cons d mid =>
      cases hmid
      rw [byteLength_append, byteLength] at hrun
      omega
  · rcases List.append_eq_append_iff.1 hmid with ⟨mid', rfl, hmid'⟩ | ⟨mid', rfl, hmid'⟩
    · rw [byteLength_append, byteLength_append] at hchar
      omega
    · cases mid' with
      | nil =>
        rw [List.append_nil] at hrun'
        rw [byteLength_append] at hchar
        omega
      | cons d mid' =>
        cases hmid'
        exact List.mem_append_right _ List.mem_cons_self

end DiceNotation
