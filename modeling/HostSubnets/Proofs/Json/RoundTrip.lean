import HostSubnets.Json.Decode
import HostSubnets.Json.Reader
import HostSubnets.Proofs.SortedMap
import HostSubnets.Proofs.Text.Numeral

/-!
# JSON read back

`Reads depth j` : the text of `j` is read as `j` whatever follows it, where `depth` levels may be opened and the
fuel is at least the length of the text. Strings are read back character by character (`readString_escape`), and
arrays and objects of readable values are readable one level further out (`reads_array`, `reads_object`);
`read?_write` adds that nothing follows.
-/

namespace HostSubnets.Json

open HostSubnets.Text

/-! ## Strings -/

theorem unit?_control {n : Nat} (h : n < 0x20) :
    unit? '0' '0' (Nat.digitChar (n / 16)) (Nat.digitChar (n % 16)) = some n := by
  have hzero : hexValue '0' = some 0 := by decide
  unfold unit?
  rw [hzero, hexValue_digitChar (by omega), hexValue_digitChar (by omega)]
  simp only [Option.bind_eq_bind, Option.bind_some, Option.some.injEq]
  omega

theorem readString_escape (c : Char) (rest : List Char) :
    readString (escape c ++ rest) = (readString rest).bind fun p => some (c :: p.1, p.2) := by
  unfold escape
  split
  · simp [readString, unescape]
  · simp [readString, unescape]
  · simp [readString, unescape]
  · simp [readString, unescape]
  · simp [readString, unescape]
  · simp [readString, unescape]
  · simp [readString, unescape]
  · split
    · rename_i h
      have htrailing : isTrailing c.toNat = false := by simp [isTrailing]; omega
      have hleading : isLeading c.toNat = false := by simp [isLeading]; omega
      simp [readString, unit?_control h, htrailing, hleading]
    · rename_i hquote hslash _ _ _ _ _ h
      rw [List.singleton_append, readString.eq_def]
      split <;> simp_all

theorem readString_flatMap_escape (s rest : List Char) :
    readString (s.flatMap escape ++ '\x22' :: rest) = some (s, rest) := by
  induction s with
  | nil => simp [readString]
  | cons c s ih =>
    rw [List.flatMap_cons, List.append_assoc, readString_escape, ih]
    rfl

/-! ## Values -/

theorem skipSpace_cons {c : Char} (h : isSpace c = false) (rest : List Char) :
    skipSpace (c :: rest) = c :: rest := List.dropWhile_cons_of_neg (by simp [h])

/-- The text of a value starts with a character that neither is a blank nor closes anything. -/
structure Opens (s : List Char) : Prop where
  exists_cons : ∃ c t, s = c :: t ∧ isSpace c = false ∧ c ≠ ']' ∧ c ≠ '\x7d'

/-- The text of `j` is read as `j`, whatever follows it. -/
structure Reads (depth : Nat) (j : Json) : Prop where
  opens : Opens j.write
  read : ∀ fuel rest, j.write.length ≤ fuel → readValue fuel depth (j.write ++ rest) = some (j, rest)

theorem reads_string (depth : Nat) (s : String) : Reads depth (.string s) where
  opens := ⟨⟨'\x22', s.toList.flatMap escape ++ ['\x22'], rfl, by decide, by decide, by decide⟩⟩
  read := by
    intro fuel rest hfuel
    have htext : (Json.string s).write = '\x22' :: (s.toList.flatMap escape ++ ['\x22']) := by
      simp [write, writeString]
    rw [htext] at hfuel ⊢
    obtain ⟨fuel, rfl⟩ : ∃ k, fuel = k + 1 := ⟨fuel - 1, by rw [List.length_cons] at hfuel; omega⟩
    have hread := readString_flatMap_escape s.toList rest
    simp only [List.cons_append, List.append_assoc, List.nil_append, readValue,
      skipSpace_cons (show isSpace '\x22' = false by decide), hread, Option.bind_eq_bind, Option.bind_some,
      String.ofList_toList]

/-! ## Arrays -/

theorem writeItems_cons_cons (a b : Json) (l : List Json) :
    writeItems (a :: b :: l) = a.write ++ ',' :: writeItems (b :: l) := rfl

theorem opens_writeItems {depth : Nat} {a : Json} (ha : Reads depth a) (l : List Json) :
    Opens (writeItems (a :: l)) := by
  obtain ⟨c, t, ht, hspace, hbracket, hbrace⟩ := ha.opens
  cases l with
  | nil => exact ⟨c, t, ht, hspace, hbracket, hbrace⟩
  | cons b l => exact ⟨c, t ++ ',' :: writeItems (b :: l), by rw [writeItems_cons_cons, ht]; rfl, hspace, hbracket, hbrace⟩

theorem readItems_writeItems {depth : Nat} {a : Json} {l : List Json} (h : ∀ j ∈ a :: l, Reads depth j)
    {fuel : Nat} (hfuel : (writeItems (a :: l)).length < fuel) (rest : List Char) :
    readItems fuel depth (writeItems (a :: l) ++ ']' :: rest) = some (a :: l, rest) := by
  induction l generalizing a fuel with
  | nil =>
    obtain ⟨fuel, rfl⟩ : ∃ k, fuel = k + 1 := ⟨fuel - 1, by omega⟩
    have hread := (h a List.mem_cons_self).read fuel (']' :: rest) (Nat.le_of_lt_succ hfuel)
    show readItems (fuel + 1) depth (a.write ++ ']' :: rest) = _
    simp only [readItems, hread, Option.bind_eq_bind, Option.bind_some,
      skipSpace_cons (show isSpace ']' = false by decide)]
  | cons b l ih =>
    obtain ⟨fuel, rfl⟩ : ∃ k, fuel = k + 1 := ⟨fuel - 1, by omega⟩
    rw [writeItems_cons_cons, List.length_append, List.length_cons] at hfuel
    have hread := (h a List.mem_cons_self).read fuel (',' :: (writeItems (b :: l) ++ ']' :: rest)) (by omega)
    have htail := ih (fun j hj => h j (List.mem_cons_of_mem _ hj)) (show (writeItems (b :: l)).length < fuel by omega)
    rw [writeItems_cons_cons, List.append_assoc, List.cons_append]
    simp only [readItems, hread, Option.bind_eq_bind, Option.bind_some,
      skipSpace_cons (show isSpace ',' = false by decide), htail]

theorem reads_array {depth : Nat} {items : List Json} (h : ∀ j ∈ items, Reads depth j) :
    Reads (depth + 1) (.array items) where
  opens := ⟨⟨'[', writeItems items ++ [']'], rfl, by decide, by decide, by decide⟩⟩
  read := by
    intro fuel rest hfuel
    have htext : (Json.array items).write ++ rest = '[' :: (writeItems items ++ ']' :: rest) := by
      simp [write]
    have hlen : (Json.array items).write.length = (writeItems items).length + 2 := by simp [write]
    obtain ⟨fuel, rfl⟩ : ∃ k, fuel = k + 1 := ⟨fuel - 1, by omega⟩
    rw [htext]
    simp only [readValue, skipSpace_cons (show isSpace '[' = false by decide), Nat.add_one_ne_zero, if_false,
      Nat.add_sub_cancel]
    cases items with
    | nil => simp [writeItems, skipSpace_cons (show isSpace ']' = false by decide)]
    | cons a l =>
      have hread := readItems_writeItems h (show (writeItems (a :: l)).length < fuel by omega) rest
      obtain ⟨c, t, ht, hspace, hbracket, -⟩ := opens_writeItems (h a List.mem_cons_self) l
      rw [ht] at hread ⊢
      simp only [List.cons_append, skipSpace_cons hspace] at hread ⊢
      split
      · simp_all
      · rw [hread]
        rfl

/-! ## Objects -/

theorem writeMembers_cons_cons (name : String) (value : Json) (m : String × Json) (l : List (String × Json)) :
    writeMembers ((name, value) :: m :: l) =
      writeString name ++ ':' :: value.write ++ ',' :: writeMembers (m :: l) := rfl

theorem readMembers_writeMembers {depth : Nat} {m : String × Json} {l : List (String × Json)}
    (h : ∀ e ∈ m :: l, Reads depth e.2) {fuel : Nat} (hfuel : (writeMembers (m :: l)).length < fuel)
    (rest : List Char) :
    readMembers fuel depth (writeMembers (m :: l) ++ '\x7d' :: rest) = some (m :: l, rest) := by
  induction l generalizing m fuel with
  | nil =>
    obtain ⟨name, value⟩ := m
    obtain ⟨fuel, rfl⟩ : ∃ k, fuel = k + 1 := ⟨fuel - 1, by omega⟩
    have hlen : (writeMembers [(name, value)]).length = (writeString name).length + value.write.length + 1 := by
      simp [writeMembers, Nat.add_assoc]
    have hname := readString_flatMap_escape name.toList (':' :: (value.write ++ '\x7d' :: rest))
    have hread := (h (name, value) List.mem_cons_self).read fuel ('\x7d' :: rest) (by dsimp only; omega)
    simp only [writeMembers, writeString, List.cons_append, List.append_assoc, List.nil_append, readMembers,
      skipSpace_cons (show isSpace '\x22' = false by decide), hname, Option.bind_eq_bind, Option.bind_some,
      skipSpace_cons (show isSpace ':' = false by decide), hread,
      skipSpace_cons (show isSpace '\x7d' = false by decide), String.ofList_toList]
  | cons m' l ih =>
    obtain ⟨name, value⟩ := m
    obtain ⟨fuel, rfl⟩ : ∃ k, fuel = k + 1 := ⟨fuel - 1, by omega⟩
    rw [writeMembers_cons_cons] at hfuel
    simp only [List.length_append, List.length_cons] at hfuel
    have hname := readString_flatMap_escape name.toList
      (':' :: (value.write ++ ',' :: (writeMembers (m' :: l) ++ '\x7d' :: rest)))
    have hread := (h (name, value) List.mem_cons_self).read fuel
      (',' :: (writeMembers (m' :: l) ++ '\x7d' :: rest)) (by dsimp only; omega)
    have htail := ih (fun e he => h e (List.mem_cons_of_mem _ he))
      (show (writeMembers (m' :: l)).length < fuel by omega)
    rw [writeMembers_cons_cons]
    simp only [writeString, List.cons_append, List.append_assoc, List.nil_append, readMembers,
      skipSpace_cons (show isSpace '\x22' = false by decide), hname, Option.bind_eq_bind, Option.bind_some,
      skipSpace_cons (show isSpace ':' = false by decide), hread,
      skipSpace_cons (show isSpace ',' = false by decide), htail, String.ofList_toList]

theorem reads_object {depth : Nat} {members : List (String × Json)} (h : ∀ e ∈ members, Reads depth e.2) :
    Reads (depth + 1) (.object members) where
  opens := ⟨⟨'\x7b', writeMembers members ++ ['\x7d'], rfl, by decide, by decide, by decide⟩⟩
  read := by
    intro fuel rest hfuel
    have htext : (Json.object members).write ++ rest = '\x7b' :: (writeMembers members ++ '\x7d' :: rest) := by
      simp [write]
    have hlen : (Json.object members).write.length = (writeMembers members).length + 2 := by simp [write]
    obtain ⟨fuel, rfl⟩ : ∃ k, fuel = k + 1 := ⟨fuel - 1, by omega⟩
    rw [htext]
    simp only [readValue, skipSpace_cons (show isSpace '\x7b' = false by decide), Nat.add_one_ne_zero, if_false,
      Nat.add_sub_cancel]
    cases members with
    | nil => simp [writeMembers, skipSpace_cons (show isSpace '\x7d' = false by decide)]
    | cons m l =>
      have hread := readMembers_writeMembers h (show (writeMembers (m :: l)).length < fuel by omega) rest
      obtain ⟨t, ht⟩ : ∃ t, writeMembers (m :: l) = '\x22' :: t := by
        cases l <;> exact ⟨_, rfl⟩
      rw [ht] at hread ⊢
      simp only [List.cons_append, skipSpace_cons (show isSpace '\x22' = false by decide)] at hread ⊢
      rw [hread]
      rfl

/-! ## Whole texts -/

/-- **A value that is readable at the depth a text may have is what its text reads as.** -/
theorem read?_write {j : Json} (h : Reads maxDepth j) : read? j.write = some j := by
  have hread := h.read (2 * j.write.length + 2) [] (by omega)
  rw [List.append_nil] at hread
  unfold read?
  rw [hread]
  rfl

/-! ## Maps of texts -/

theorem mapM_map {α β : Type} {f : α → β} {g : β → Option α} (h : ∀ a, g (f a) = some a) (l : List α) :
    (l.map f).mapM g = some l := by
  induction l with
  | nil => rfl
  | cons a l ih =>
    rw [List.map_cons, List.mapM_cons, h, ih]
    rfl

theorem texts?_ofTexts (texts : List String) : texts? (ofTexts texts) = some texts :=
  mapM_map (f := Json.string) (g := text?) (fun _ => rfl) texts

theorem members?_ofMap {α : Type} {value? : Json → Option α} {value : α → Json}
    (h : ∀ v, value? (value v) = some v) (m : SortedMap String α) : members? value? (ofMap value m) = some m := by
  have hentries : (m.entries.map fun e => (e.1, value e.2)).mapM (fun e => (value? e.2).map (e.1, ·)) =
      some m.entries := mapM_map (fun e => by simp [h]) m.entries
  show (m.entries.map fun e => (e.1, value e.2)).mapM (fun e => (value? e.2).map (e.1, ·)) >>= _ = _
  rw [hentries]
  exact congrArg some (SortedMap.ofList_entries m)

theorem reads_ofTexts (depth : Nat) (texts : List String) : Reads (depth + 1) (ofTexts texts) := by
  refine reads_array fun j hj => ?_
  obtain ⟨s, -, rfl⟩ := List.mem_map.1 hj
  exact reads_string depth s

theorem reads_ofMap {α : Type} {depth : Nat} {value : α → Json} (h : ∀ v, Reads depth (value v))
    (m : SortedMap String α) : Reads (depth + 1) (ofMap value m) := by
  refine reads_object fun e he => ?_
  obtain ⟨⟨name, v⟩, -, rfl⟩ := List.mem_map.1 he
  exact h v

end HostSubnets.Json
