import Chatsy.Cloud.Documents
import Chatsy.Foundation.FirstOccurrences

/-!
# HomeScreen: the friends list of the page's user

The page is given the future of a user. Its `FutureBuilder` has no data as long
as that future is open, and none either when it completes with null.

A friends collection can hold one name several times. `uniqueListTiles` fills
the list of the rows not to be shown, and the builder makes a tile of each other
row. Its outer loop reads that list in its own condition, so it ends at the
first row that is forbidden.

## Implementation notes

The outer loop is a recursion on the number of rows it still has. The `index++`
of the builder changes only its own parameter.
-/

namespace Chatsy.HomeScreen

/-- The loading indicator, or the friends collection of an address. -/
inductive Body
  | loading
  | friends (email : Text)
  deriving DecidableEq, Repr

/-- The body once the page's future has completed with `user`. -/
def body (user : Option Text) : Body :=
  match user with
  | none => .loading
  | some email => .friends email

theorem body_eq_friends {user : Option Text} {email : Text} :
    body user = .friends email ↔ user = some email := by
  cases user <;> simp [body]

/-- The names of the friends documents. -/
def names (documents : List FriendDoc) : List Text := documents.map FriendDoc.name

/-- The inner loop of `uniqueListTiles`: forbids the rows below row `i` with its name. -/
def forbidRepeats (documents : List FriendDoc) (i : Nat) (listOfIndicesForbidden : List Nat) :
    List Nat :=
  (List.range' (i + 1) (documents.length - (i + 1))).foldl (fun forbidden j =>
    if (names documents)[i]? = (names documents)[j]? ∧ j ∉ forbidden then forbidden ++ [j]
    else forbidden) listOfIndicesForbidden

/-- The outer loop of `uniqueListTiles` at row `i`, with `rows` rows to go. -/
def forbidFrom (documents : List FriendDoc) : Nat → Nat → List Nat → List Nat
  | 0, _, listOfIndicesForbidden => listOfIndicesForbidden
  | rows + 1, i, listOfIndicesForbidden =>
      if i ∈ listOfIndicesForbidden then listOfIndicesForbidden
      else forbidFrom documents rows (i + 1) (forbidRepeats documents i listOfIndicesForbidden)

/-- `uniqueListTiles`: the list `listOfIndicesForbidden` it fills. -/
def uniqueListTiles (documents : List FriendDoc) : List Nat :=
  forbidFrom documents documents.length 0 []

/-- `itemBuilder`: the friend of the tile, or an empty container. -/
def itemBuilder (documents : List FriendDoc) (index : Nat) : Option Text :=
  (names documents)[index]?.bind fun friendemail =>
    if index ∈ uniqueListTiles documents then none else some friendemail

/-- The friends of the tiles of the list view, from the top. -/
def listView (documents : List FriendDoc) : List Text :=
  (List.range documents.length).filterMap (itemBuilder documents)

/-- The title of a tile, read from the friend's profile: a missing document has no field to read. -/
def title (documents : Documents) (friendemail : Text) : Option Text :=
  ((userDocument friendemail).bind documents).map fun d => toStringOrNull d.name

/-- The list view shows each name where it occurs first, and nothing else: the names without
duplicates, in their order. -/
structure Deduplicated (documents : List FriendDoc) : Prop where
  positions : ∀ index name, (names documents)[index]? = some name →
    itemBuilder documents index = if name ∈ (names documents).take index then none else some name
  tiles : listView documents = (names documents).eraseDups

theorem mem_foldl_forbid (documents : List FriendDoc) (i : Nat) (rows forbidden : List Nat)
    (j : Nat) :
    j ∈ rows.foldl (fun forbidden j =>
      if (names documents)[i]? = (names documents)[j]? ∧ j ∉ forbidden then forbidden ++ [j]
      else forbidden) forbidden ↔
      j ∈ forbidden ∨ (j ∈ rows ∧ (names documents)[i]? = (names documents)[j]?) := by
  induction rows generalizing forbidden with
  | nil => simp
  | cons row rows ih =>
      rw [List.foldl_cons, ih, List.mem_cons]
      by_cases hrow : (names documents)[i]? = (names documents)[row]? ∧ row ∉ forbidden
      · rw [if_pos hrow, List.mem_append, List.mem_singleton]
        grind
      · rw [if_neg hrow]
        grind

/-- A run of the inner loop forbids the rows that repeat its row. -/
theorem mem_forbidRepeats {documents : List FriendDoc} {i : Nat} (hi : i < documents.length)
    (forbidden : List Nat) (j : Nat) :
    j ∈ forbidRepeats documents i forbidden ↔
      j ∈ forbidden ∨ Foundation.Repeats (names documents) i j := by
  have hlength : (names documents).length = documents.length := List.length_map _
  have hname : (names documents)[i]? = some (names documents)[i] :=
    List.getElem?_eq_getElem (by omega)
  rw [forbidRepeats, mem_foldl_forbid, List.mem_range'_1]
  apply or_congr_right
  constructor
  · rintro ⟨⟨hij, _⟩, heq⟩
    exact ⟨hij, _, hname, heq.symm.trans hname⟩
  · rintro ⟨hij, name, hi', hj⟩
    have hjlt := (List.getElem?_eq_some_iff.mp hj).1
    exact ⟨⟨hij, by omega⟩, hi'.trans hj.symm⟩

/-- The outer loop reaches the rows above the first repetition. -/
theorem mem_forbidFrom {documents : List FriendDoc} {rows i : Nat} {forbidden : List Nat}
    (hrows : rows + i = documents.length)
    (hfirst : ∀ k < i, Foundation.First (names documents) k)
    (hforbidden : ∀ j, j ∈ forbidden ↔ ∃ k < i, Foundation.Repeats (names documents) k j)
    (j : Nat) :
    j ∈ forbidFrom documents rows i forbidden ↔
      ∃ k, Foundation.Repeats (names documents) k j ∧
        ∀ m ≤ k, Foundation.First (names documents) m := by
  induction rows generalizing i forbidden with
  | zero =>
      rw [forbidFrom, hforbidden]
      constructor
      · rintro ⟨k, hk, hrepeats⟩
        exact ⟨k, hrepeats, fun m hm => hfirst m (by omega)⟩
      · rintro ⟨k, hrepeats, _⟩
        have hlt := Foundation.length_of_repeats hrepeats
        rw [names, List.length_map] at hlt
        exact ⟨k, by omega, hrepeats⟩
  | succ rows ih =>
      rw [forbidFrom]
      by_cases hi : i ∈ forbidden
      · obtain ⟨k, _, hrepeats⟩ := (hforbidden i).mp hi
        rw [if_pos hi, hforbidden]
        constructor
        · rintro ⟨k, hk, hrepeats⟩
          exact ⟨k, hrepeats, fun m hm => hfirst m (by omega)⟩
        · rintro ⟨k', hrepeats', hreached⟩
          refine ⟨k', ?_, hrepeats'⟩
          by_contra hge
          exact hreached i (by omega) k hrepeats
      · rw [if_neg hi]
        have hnew : Foundation.First (names documents) i := by
          intro k hrepeats
          exact hi ((hforbidden i).mpr ⟨k, hrepeats.1, hrepeats⟩)
        apply ih (by omega)
        · intro k hk
          rcases Nat.lt_succ_iff_lt_or_eq.mp hk with hk | rfl
          · exact hfirst k hk
          · exact hnew
        · intro j
          rw [mem_forbidRepeats (by omega), hforbidden]
          constructor
          · rintro (⟨k, hk, hrepeats⟩ | hrepeats)
            · exact ⟨k, by omega, hrepeats⟩
            · exact ⟨i, Nat.lt_succ_self i, hrepeats⟩
          · rintro ⟨k, hk, hrepeats⟩
            rcases Nat.lt_succ_iff_lt_or_eq.mp hk with hk | rfl
            · exact Or.inl ⟨k, hk, hrepeats⟩
            · exact Or.inr hrepeats

/-- The forbidden rows repeat a row down to which no name has come again. -/
theorem mem_uniqueListTiles (documents : List FriendDoc) (j : Nat) :
    j ∈ uniqueListTiles documents ↔
      ∃ k, Foundation.Repeats (names documents) k j ∧
        ∀ m ≤ k, Foundation.First (names documents) m :=
  mem_forbidFrom (Nat.add_zero _) (fun _ hk => absurd hk (Nat.not_lt_zero _)) (by simp) j

/-- With the repeated rows all forbidden, the list view is the list of names without
duplicates. -/
theorem deduplicated_of_positions {documents : List FriendDoc}
    (h : ∀ index name, (names documents)[index]? = some name →
      itemBuilder documents index =
        if name ∈ (names documents).take index then none else some name) :
    Deduplicated documents where
  positions := h
  tiles := by
    rw [← Foundation.filterMap_first_eq_eraseDups, listView, names, List.length_map]
    apply List.filterMap_congr
    intro index _
    change _ = (names documents)[index]?.bind _
    cases hname : (names documents)[index]? with
    | none => rw [itemBuilder, hname, Option.bind_none, Option.bind_none]
    | some name => rw [h index name hname, Option.bind_some, names]

/-- The list view is without duplicates and losses exactly when the names above the first
occurrence of each repeated name are distinct. -/
theorem deduplicated_iff_repeatsEarly (documents : List FriendDoc) :
    Deduplicated documents ↔ Foundation.RepeatsEarly (names documents) := by
  rw [← Foundation.swept_iff_repeatsEarly]
  constructor
  · rintro ⟨hpositions, _⟩ j ⟨i, hrepeats⟩
    obtain ⟨_, name, _, hj⟩ := id hrepeats
    have hbuilt := hpositions j name hj
    rw [if_pos ((Foundation.exists_repeats_iff hj).mp ⟨i, hrepeats⟩), itemBuilder, hj,
      Option.bind_some] at hbuilt
    apply (mem_uniqueListTiles documents j).mp
    by_contra hshown
    rw [if_neg hshown] at hbuilt
    exact Option.some_ne_none name hbuilt
  · intro hswept
    apply deduplicated_of_positions
    intro j name hj
    have hforbidden : j ∈ uniqueListTiles documents ↔ name ∈ (names documents).take j := by
      rw [mem_uniqueListTiles, ← Foundation.exists_repeats_iff hj]
      exact ⟨fun ⟨k, hrepeats, _⟩ => ⟨k, hrepeats⟩, hswept j⟩
    rw [itemBuilder, hj, Option.bind_some]
    exact if_congr hforbidden rfl rfl

/-- Two friends documents for `bob` and then two for `eve`: the loop ends at the second `bob`,
and `eve` is shown twice. -/
theorem eve_listed_twice :
    ¬ Deduplicated [⟨.call 0 .own, text "bob@mail.com"⟩, ⟨.call 1 .own, text "bob@mail.com"⟩,
      ⟨.call 2 .own, text "eve@mail.com"⟩, ⟨.call 3 .own, text "eve@mail.com"⟩] ∧
    listView [⟨.call 0 .own, text "bob@mail.com"⟩, ⟨.call 1 .own, text "bob@mail.com"⟩,
      ⟨.call 2 .own, text "eve@mail.com"⟩, ⟨.call 3 .own, text "eve@mail.com"⟩] =
      [text "bob@mail.com", text "eve@mail.com", text "eve@mail.com"] := by
  refine ⟨fun h => ?_, by decide⟩
  exact absurd h.tiles (by decide)

end Chatsy.HomeScreen
