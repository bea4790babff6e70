import ShaderFlow.Files
import ShaderFlow.Proofs.Outcome

set_option autoImplicit false

namespace ShaderFlow

namespace Text

/-- Characters before the first mark stand for themselves. -/
theorem symbolsOf_append {front : List Char} (unmarked : mark ∉ front) (back : List Char) :
    symbolsOf (front ++ back) = front.map .char ++ symbolsOf back := by
  induction front with
  | nil => rfl
  | cons c front ih =>
    obtain ⟨other, unmarked⟩ := not_or.mp (List.mem_cons.not.mp unmarked)
    have plain : (c == mark) = false := beq_eq_false_iff_ne.mpr (Ne.symm other)
    rw [List.map_cons, List.cons_append, List.cons_append, ← ih unmarked]
    cases rest : front ++ back with
    | nil => rfl
    | cons d rest =>
      rw [symbolsOf, plain]
      rfl

/-- A text without marks has bytes. -/
theorem exists_utf8Encode {s : String} (unmarked : mark ∉ s.toList) :
    ∃ bytes, utf8Encode? s = some bytes := by
  have all : symbols s = s.toList.map .char := by
    have whole := symbolsOf_append unmarked []
    rw [List.append_nil] at whole
    rw [symbols, whole, symbolsOf, List.append_nil]
  have each : (symbols s).mapM utf8EncodeSymbol? = some (s.toList.map utf8EncodeChar) := by
    rw [all, List.mapM_map]
    exact List.mapM_pure
  exact ⟨_, by rw [utf8Encode?, each, Option.map_some]⟩

/-- A text whose first mark begins half of a surrogate pair has none. -/
theorem utf8Encode?_eq_none {s : String} {front back : List Char} {c : Char}
    (split : s.toList = front ++ mark :: c :: back) (unmarked : mark ∉ front) (half : c ≠ mark) :
    utf8Encode? s = none := by
  have other : (c == mark) = false := by simpa using half
  have parts : symbols s = front.map .char ++ .half (c.toNat - halfShift) :: symbolsOf back := by
    rw [symbols, split, symbolsOf_append unmarked, symbolsOf, other]
    rfl
  have failed : (symbols s).mapM utf8EncodeSymbol? = none := by
    rw [parts, List.mapM_append, List.mapM_cons]
    cases (front.map Symbol.char).mapM utf8EncodeSymbol? <;> rfl
  rw [utf8Encode?, failed, Option.map_none]

end Text

namespace Files

variable {fs fs' : Files} {p : Path} {place : Place} {bytes : List UInt8} {time : Int}

/-- Nothing is read where nothing is. -/
theorem exists_read_error (absent : fs.contains p = .ok false) : ∃ e, fs.read p = .error e := by
  unfold contains at absent
  unfold read
  cases located : fs.place p with
  | error fault => exact ⟨_, rfl⟩
  | ok place =>
    rw [located] at absent
    cases found : fs.at? place with
    | none =>
      dsimp only
      rw [found]
      exact ⟨_, rfl⟩
    | some entry =>
      simp only [found, Option.isSome_some] at absent
      cases absent

/-- The entries with another one at a place that is among them. -/
def replaced (entries : List (Place × Entry)) (place : Place) (entry : Entry) :
    List (Place × Entry) :=
  entries.map fun e => if e.1 == place then (place, entry) else e

theorem lookup_replaced (entries : List (Place × Entry)) (place : Place) (entry : Entry)
    (other : Place) : (replaced entries place entry).lookup other =
      if other = place ∧ entries.any (·.1 == place) = true then some entry
      else entries.lookup other := by
  induction entries with
  | nil => simp [replaced]
  | cons e entries ih =>
    obtain ⟨q, old⟩ := e
    rw [replaced, List.map_cons, ← replaced, List.any_cons]
    by_cases here : q = place
    · subst here
      rw [BEq.rfl, if_pos rfl, List.lookup_cons, List.lookup_cons, ih]
      by_cases same : other = q
      · simp [same]
      · have apart : (other == q) = false := by simpa using same
        simp [apart, same]
    · have apart : (q == place) = false := by simpa using here
      rw [apart, if_neg (by simp), List.lookup_cons, List.lookup_cons, ih, Bool.false_or]
      by_cases same : other = q
      · subst same
        simp [here]
      · have apart' : (other == q) = false := by simpa using same
        rw [apart']

/-- The one place where something is put changes. -/
theorem at?_put (named : (place.isEmpty || place == rootPlace) = false) (entry : Entry)
    (other : Place) :
    (fs.put place entry).at? other = if other = place then some entry else fs.at? other := by
  have entries : (fs.put place entry).entries.lookup other =
      if other = place then some entry else fs.entries.lookup other := by
    unfold put
    by_cases listed : fs.entries.any (·.1 == place) = true
    · rw [if_pos listed, ← replaced, lookup_replaced]
      simp only [listed, and_true]
    · have absent : fs.entries.lookup place = none := by
        refine List.lookup_eq_none_iff.mpr fun e member => ?_
        simp only [List.any_eq_true, not_exists, not_and] at listed
        exact bne_iff_ne.mpr fun same => listed e member (beq_iff_eq.mpr same.symm)
      rw [if_neg listed, List.lookup_append, List.lookup_cons]
      by_cases same : other = place
      · simp [same, absent]
      · have apart : (other == place) = false := by simpa using same
        simp [same, apart]
  unfold at?
  rw [entries]
  by_cases same : other = place
  · subst same
    rw [named]
    simp
  · rw [if_neg same, if_neg same]

/-- A way that is found leads through directories only, so what is put elsewhere does not block it.
-/
theorem locate_put (named : (place.isEmpty || place == rootPlace) = false)
    (shut : fs.at? place ≠ some .directory) (entry : Entry) {start found : Place}
    {parts : List String} (located : fs.locate start parts = .ok found) :
    (fs.put place entry).locate start parts = .ok found := by
  induction parts generalizing start with
  | nil => exact located
  | cons part rest ih =>
    rw [locate] at located ⊢
    cases here : fs.at? start with
    | none =>
      rw [here] at located
      cases located
    | some found' =>
      cases found' with
      | file => 
        rw [here] at located
        cases located
      | directory =>
        have apart : start ≠ place := by
          rintro rfl
          exact shut here
        rw [at?_put named, if_neg apart, here]
        rw [here] at located
        simp only at located ⊢
        cases entered : enter start part with
        | error fault =>
          rw [entered] at located
          cases located
        | ok next =>
          rw [entered] at located
          exact ih located

theorem place_put (named : (place.isEmpty || place == rootPlace) = false)
    (shut : fs.at? place ≠ some .directory) (entry : Entry) {found : Place}
    (located : fs.place p = .ok found) : (fs.put place entry).place p = .ok found := by
  unfold Files.place at located ⊢
  split at located
  · cases located
  · exact locate_put named shut entry located

/-- Where a file can be written: at a place that is no directory, in one that is. -/
structure Opens (fs : Files) (p : Path) (place : Place) : Prop where
  located : fs.place p = .ok place
  shut : fs.at? place ≠ some .directory
  inside : fs.at? place.dropLast = some .directory

theorem write_eq_ok_iff : fs.write p bytes time = .ok fs' ↔
    ∃ place, fs.Opens p place ∧ fs' = fs.put place (.file bytes time) := by
  constructor
  · intro written
    unfold write at written
    split at written
    · cases written
    · rename_i place located
      split at written
      · cases written
      · rename_i shut
        split at written
        · rename_i inside
          cases written
          exact ⟨place, ⟨located, shut, inside⟩, rfl⟩
        · cases written
        · cases written
  · rintro ⟨place, opens, rfl⟩
    rw [write, opens.located]
    dsimp only
    split
    · rename_i directory
      exact absurd directory opens.shut
    · rw [opens.inside]

theorem Opens.named (opens : fs.Opens p place) : (place.isEmpty || place == rootPlace) = false := by
  cases root : (place.isEmpty || place == rootPlace) with
  | false => rfl
  | true =>
    refine absurd ?_ opens.shut
    rw [at?, root, if_pos rfl]

theorem Opens.put (opens : fs.Opens p place) (bytes : List UInt8) (time : Int) :
    (fs.put place (.file bytes time)).Opens p place where
  located := place_put opens.named opens.shut _ opens.located
  shut := by
    rw [at?_put opens.named, if_pos rfl]
    simp
  inside := by
    have apart : place.dropLast ≠ place := by
      intro same
      exact opens.shut (same ▸ opens.inside)
    rw [at?_put opens.named, if_neg apart, opens.inside]

/-- A file has other bytes, and nothing else has changed. -/
structure Rewritten (fs : Files) (p : Path) (bytes : List UInt8) (fs' : Files) : Prop where
  read : fs'.read p = .ok bytes
  others : ∀ place, fs.place p ≠ .ok place → fs'.at? place = fs.at? place

theorem rewritten_of_put (opens : fs.Opens p place) {fs' : Files} (opens' : fs'.Opens p place)
    (same : ∀ other, other ≠ place → fs'.at? other = fs.at? other) (bytes : List UInt8)
    (time : Int) :
    fs.Rewritten p bytes (fs'.put place (.file bytes time)) where
  read := by
    rw [read, (opens'.put bytes time).located]
    simp only [at?_put opens'.named, if_true]
  others other elsewhere := by
    have apart : other ≠ place := by
      rintro rfl
      exact elsewhere opens.located
    rw [at?_put opens'.named, if_neg apart, same other apart]

theorem encode_eq_error {text : String} {e : Error} (failed : encode text = .error e) :
    e = .unencodable := by
  unfold encode at failed
  split at failed
  · cases failed
  · cases failed
    rfl

/-- A text is written if it has bytes, and else the file is left empty. -/
theorem writeText_cases (writable : (fs.write p [] 0).isOk = true) (text : String) :
    (∃ bytes fs', encode text = .ok bytes ∧ fs.writeText p text = (fs', .ok ()) ∧
        fs.Rewritten p bytes fs') ∨
      ∃ fs', encode text = .error .unencodable ∧
        fs.writeText p text = (fs', .error .unencodable) ∧ fs.Rewritten p [] fs' := by
  cases emptying : fs.write p [] 0 with
  | error e =>
    rw [emptying] at writable
    cases writable
  | ok emptied =>
    obtain ⟨place, opens, rfl⟩ := write_eq_ok_iff.mp emptying
    cases encoded : encode text with
    | error e =>
      refine .inr ⟨_, ?_, ?_, rewritten_of_put opens opens (fun _ _ => rfl) [] 0⟩
      · rw [encode_eq_error encoded]
      · rw [writeText, emptying, encoded, encode_eq_error encoded]
    | ok bytes =>
      have again :=
        write_eq_ok_iff.mpr ⟨place, opens.put [] 0, @rfl _ (put _ place (.file bytes 0))⟩
      refine .inl ⟨bytes, _, rfl, ?_, rewritten_of_put opens (opens.put [] 0) ?_ bytes 0⟩
      · rw [writeText, emptying, encoded]
        dsimp only
        rw [again]
      · intro other apart
        rw [at?_put opens.named, if_neg apart]

end Files

end ShaderFlow
