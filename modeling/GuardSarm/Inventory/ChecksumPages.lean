import GuardSarm.Lib.Keyset
import GuardSarm.Lib.Segments
import GuardSarm.Lib.Text

/-!
# The checksum of checksums

`calculateChecksumOfChecksums` asks the indexer for the checksums of an agent,
a page at a time, and hashes their concatenation. The next page is asked for
with the last checksum of the page before (`search_after`), so documents with
that checksum that did not fit on the page are lost; and an empty checksum
asks for the first page again.
-/

namespace GuardSarm.Inventory

open List

open Keyset

def batchSize : Nat := 1000

/-- A hit of a search: the checksum of its source, and its sort values. -/
structure Hit where
  sha1 : Option Text
  sort : List Text
  deriving DecidableEq

/-- The loop over the hits of a page: the checksums read, and the last sort value. -/
def readHits : List Hit → Text → Text → Text × Text
  | [], concatenatedChecksums, searchAfter => (concatenatedChecksums, searchAfter)
  | hit :: hits, concatenatedChecksums, searchAfter =>
    readHits hits (concatenatedChecksums ++ hit.sha1.getD []) (hit.sort.head?.getD searchAfter)

/-- The loop over the pages, with a bound on its passes. The search is given the value of
`search_after`, if there is one, and may answer without hits. -/
def paginate (executeSearchQuery : Option Text → Option (List Hit)) :
    Nat → Text → Text → Option Text
  | 0, _, _ => none
  | fuel + 1, concatenatedChecksums, searchAfter =>
    let hits := (executeSearchQuery (if searchAfter = [] then none else some searchAfter)).getD []
    if hits = [] then some concatenatedChecksums
    else
      let read := readHits hits concatenatedChecksums searchAfter
      if hits.length < batchSize then some read.1
      else paginate executeSearchQuery fuel read.1 read.2

/-- The text that is hashed, and its hash. -/
def calculateChecksumOfChecksums (hash : Text → Text)
    (executeSearchQuery : Option Text → Option (List Hit)) (fuel : Nat) : Option Text :=
  (paginate executeSearchQuery fuel [] []).map hash

/-- The indexer with the documents of an agent: the first ones in ascending order whose sort value is
strictly greater than the given one. -/
def indexer (checksums : Multiset Text) (searchAfter : Option Text) : Option (List Hit) :=
  let documents :=
    match searchAfter with
    | none => checksums.sort (· ≤ ·)
    | some value => beyond value (checksums.sort (· ≤ ·))
  some ((documents.take batchSize).map fun sha1 => ⟨some sha1, [sha1]⟩)

theorem readHits_page (page : List Text) (concatenatedChecksums searchAfter : Text) :
    readHits (page.map fun sha1 => ⟨some sha1, [sha1]⟩) concatenatedChecksums searchAfter =
      (concatenatedChecksums ++ page.flatten, page.getLast?.getD searchAfter) := by
  induction page generalizing concatenatedChecksums searchAfter with
  | nil => simp [readHits]
  | cons sha1 page ih =>
    rw [map_cons, readHits, ih]
    cases page with
    | nil => simp
    | cons next page =>
      rw [getLast?_cons_cons, getLast?_eq_some_getLast (cons_ne_nil _ _)]
      simp

def asked (checksums : Multiset Text) (searchAfter : Text) : List Text :=
  if searchAfter = [] then checksums.sort (· ≤ ·)
  else beyond searchAfter (checksums.sort (· ≤ ·))

theorem asked_nil (checksums : Multiset Text) : asked checksums [] = checksums.sort (· ≤ ·) :=
  if_pos rfl

theorem indexer_asked (checksums : Multiset Text) (searchAfter : Text) :
    indexer checksums (if searchAfter = [] then none else some searchAfter) =
      some (((asked checksums searchAfter).take batchSize).map fun sha1 => ⟨some sha1, [sha1]⟩) := by
  by_cases first : searchAfter = []
  · rw [if_pos first, asked, if_pos first]
    rfl
  · rw [if_neg first, asked, if_neg first]
    rfl

section

variable {checksums : Multiset Text} {concatenatedChecksums searchAfter : Text}

theorem paginate_last (fuel : Nat) (short : (asked checksums searchAfter).length < batchSize) :
    paginate (indexer checksums) (fuel + 1) concatenatedChecksums searchAfter =
      some (concatenatedChecksums ++ (asked checksums searchAfter).flatten) := by
  rw [paginate, indexer_asked, take_of_length_le short.le]
  simp only [Option.getD_some, readHits_page, map_eq_nil_iff, length_map, if_pos short]
  split
  · rename_i empty
    simp [empty]
  · rfl

/-- A full page, from which the next one is asked for. -/
theorem paginate_full (fuel : Nat) {last : Text}
    (found : (asked checksums searchAfter)[batchSize - 1]? = some last) :
    paginate (indexer checksums) (fuel + 1) concatenatedChecksums searchAfter =
      paginate (indexer checksums) fuel
        (concatenatedChecksums ++ ((asked checksums searchAfter).take batchSize).flatten) last := by
  have inside := (List.getElem?_eq_some_iff.mp found).1
  have length : ((asked checksums searchAfter).take batchSize).length = batchSize := by
    rw [length_take]
    omega
  have page : ((asked checksums searchAfter).take batchSize).getLast? = some last := by
    rw [getLast?_eq_getElem?, length, getElem?_take_of_lt (by decide), found]
  have some : (asked checksums searchAfter).take batchSize ≠ [] := by
    intro empty
    rw [empty] at length
    cases length
  rw [paginate, indexer_asked]
  simp only [Option.getD_some, readHits_page, map_eq_nil_iff, length_map, some, if_false,
    length, Nat.lt_irrefl, page]

theorem asked_sorted (checksums : Multiset Text) (searchAfter : Text) :
    (asked checksums searchAfter).Pairwise (· ≤ ·) := by
  rw [asked]
  split
  · exact checksums.pairwise_sort _
  · exact (checksums.pairwise_sort _).sublist (beyond_sublist _ _)

theorem asked_next {last : Text} (given : last ≠ [])
    (found : (asked checksums searchAfter)[batchSize - 1]? = some last) :
    asked checksums last = beyond last ((asked checksums searchAfter).drop batchSize) := by
  rw [← beyond_drop (asked_sorted checksums searchAfter) found]
  have member := mem_of_getElem? found
  rw [asked] at member
  rw [asked, if_neg given, asked]
  split
  · rfl
  · rename_i before
    rw [if_neg before] at member
    exact (beyond_beyond (mem_beyond.mp member).2 _).symm

/-- What the loop reads once it asks for more than the first page. -/
theorem paginate_collected (given : searchAfter ≠ []) (rest : List Text)
    (pages : asked checksums searchAfter = rest) (concatenatedChecksums : Text) :
    ∃ fuel, paginate (indexer checksums) fuel concatenatedChecksums searchAfter =
      some (concatenatedChecksums ++ (collected batchSize rest).flatten) := by
  fun_induction collected batchSize rest generalizing concatenatedChecksums searchAfter with
  | case1 rest full ih =>
    have inside : batchSize - 1 < rest.length := by omega
    have found : (asked checksums searchAfter)[batchSize - 1]? = some rest[batchSize - 1] := by
      rw [pages]
      exact getElem?_eq_getElem inside
    have above : searchAfter < rest[batchSize - 1] := by
      have member := mem_of_getElem? found
      rw [asked, if_neg given] at member
      exact (mem_beyond.mp member).2
    have some : rest[batchSize - 1] ≠ [] := fun empty => by
      rw [empty] at above
      exact absurd above (not_lt_nil _)
    obtain ⟨fuel, done⟩ := ih some (by rw [asked_next some found, pages]; rfl)
      (concatenatedChecksums ++ (rest.take batchSize).flatten)
    refine ⟨fuel + 1, ?_⟩
    rw [paginate_full fuel found, pages, done, flatten_append, append_assoc]
  | case2 rest short =>
    refine ⟨1, ?_⟩
    rw [← pages]
    exact paginate_last 0 (by rw [pages]; exact not_le.mp fun large => short ⟨by decide, large⟩)

end

theorem paginate_succ {query : Option Text → Option (List Hit)} {fuel : Nat}
    {concatenatedChecksums searchAfter result : Text}
    (done : paginate query fuel concatenatedChecksums searchAfter = some result) :
    paginate query (fuel + 1) concatenatedChecksums searchAfter = some result := by
  induction fuel generalizing concatenatedChecksums searchAfter with
  | zero => cases done
  | succ fuel ih =>
    rw [paginate] at done ⊢
    generalize (query _).getD [] = hits at done ⊢
    simp only at done ⊢
    split_ifs at done ⊢
    · exact done
    · exact done
    · exact ih done

theorem paginate_unique {query : Option Text → Option (List Hit)} {fuel fuel' : Nat}
    {concatenatedChecksums searchAfter result result' : Text}
    (done : paginate query fuel concatenatedChecksums searchAfter = some result)
    (done' : paginate query fuel' concatenatedChecksums searchAfter = some result') :
    result = result' := by
  have more {fuel : Nat} {result : Text} (n : Nat)
      (done : paginate query fuel concatenatedChecksums searchAfter = some result) :
      paginate query (fuel + n) concatenatedChecksums searchAfter = some result := by
    induction n with
    | zero => exact done
    | succ n ih => exact paginate_succ ih
  have left := more fuel' done
  rw [Nat.add_comm, more fuel done'] at left
  exact (Option.some.inj left).symm

/-- A full page that ends with an empty checksum is read again and again. -/
theorem paginate_stuck {checksums : Multiset Text}
    (empty : (checksums.sort (· ≤ ·))[batchSize - 1]? = some []) (fuel : Nat)
    (concatenatedChecksums : Text) :
    paginate (indexer checksums) fuel concatenatedChecksums [] = none := by
  induction fuel generalizing concatenatedChecksums with
  | zero => rfl
  | succ fuel ih => rw [paginate_full fuel (by rw [asked_nil, empty]), ih]

/-- A first page that is full: the loop reads what is collected, and nothing is lost unnoticed. -/
theorem read_all_iff {checksums : Multiset Text} {last : Text}
    (found : (checksums.sort (· ≤ ·))[batchSize - 1]? = some last) (given : last ≠ []) :
    (∃ fuel, paginate (indexer checksums) fuel [] [] = some (checksums.sort (· ≤ ·)).flatten) ↔
      collected batchSize (checksums.sort (· ≤ ·)) = checksums.sort (· ≤ ·) := by
  have sorted : (checksums.sort (· ≤ ·)).Pairwise (· ≤ ·) := checksums.pairwise_sort _
  generalize documents : checksums.sort (· ≤ ·) = s at found sorted ⊢
  obtain ⟨inside, rfl⟩ := List.getElem?_eq_some_iff.mp found
  have first : asked checksums [] = s := (asked_nil checksums).trans documents
  have next : asked checksums s[batchSize - 1] =
      beyond s[batchSize - 1] (s.drop batchSize) := by
    rw [@asked_next checksums [] _ given (by rw [first, found]), first]
  obtain ⟨fuel, done⟩ := paginate_collected given _ next (s.take batchSize).flatten
  have read : paginate (indexer checksums) (fuel + 1) [] [] = some ((s.take batchSize).flatten ++
      (collected batchSize (beyond s[batchSize - 1] (s.drop batchSize))).flatten) := by
    rw [paginate_full fuel (by rw [first, found]), first, nil_append, done]
  have part := (collected_sublist batchSize (beyond s[batchSize - 1] (s.drop batchSize))).trans
    (beyond_sublist _ _)
  have some : ∀ checksum ∈ s.drop batchSize, checksum ≠ [] := by
    intro checksum member empty
    obtain ⟨i, bound, rfl⟩ := mem_iff_getElem.mp member
    rw [getElem_drop] at empty
    have behind : batchSize - 1 < batchSize + i := by
      have : 0 < batchSize := by decide
      omega
    have above : s[batchSize - 1] ≤ [] :=
      empty ▸ pairwise_iff_getElem.mp sorted _ _ _ _ behind
    exact (le_iff_lt_or_eq.mp above).elim (not_lt_nil _) given
  have whole : s.flatten = (s.take batchSize).flatten ++ (s.drop batchSize).flatten := by
    rw [← flatten_append, take_append_drop]
  rw [collected, dif_pos ⟨by decide, by omega⟩]
  constructor
  · intro ⟨fuel', done'⟩
    have same := paginate_unique read done'
    rw [whole] at same
    have kept := (Segments.flatten_eq_iff_of_sublist part some).mp (append_cancel_left same)
    exact (congrArg _ kept).trans (take_append_drop batchSize s)
  · intro all
    refine ⟨fuel + 1, read.trans ?_⟩
    rw [← flatten_append]
    exact congrArg _ (congrArg _ all)

/-- **The loop ends with the checksums of all documents exactly if** no full page ends between equal
checksums and the first one does not end with an empty checksum. -/
theorem checksum_pages_iff (checksums : Multiset Text) :
    (∀ hash : Text → Text, ∃ fuel, calculateChecksumOfChecksums hash (indexer checksums) fuel =
      some (hash (checksums.sort (· ≤ ·)).flatten)) ↔
    Aligned batchSize (checksums.sort (· ≤ ·)) ∧
      (checksums.sort (· ≤ ·))[batchSize - 1]? ≠ some [] := by
  have sorted : (checksums.sort (· ≤ ·)).Pairwise (· ≤ ·) := checksums.pairwise_sort _
  have first := asked_nil checksums
  have hashed : (∀ hash : Text → Text, ∃ fuel,
      calculateChecksumOfChecksums hash (indexer checksums) fuel =
        some (hash (checksums.sort (· ≤ ·)).flatten)) ↔
      ∃ fuel, paginate (indexer checksums) fuel [] [] =
        some (checksums.sort (· ≤ ·)).flatten := by
    refine ⟨fun all => ?_, fun ⟨fuel, done⟩ hash => ⟨fuel, ?_⟩⟩
    · obtain ⟨fuel, done⟩ := all id
      exact ⟨fuel, by simpa [calculateChecksumOfChecksums] using done⟩
    · rw [calculateChecksumOfChecksums, done]
      rfl
  rw [hashed]
  cases found : (checksums.sort (· ≤ ·))[batchSize - 1]? with
  | none =>
    have short := getElem?_eq_none_iff.mp found
    have all : collected batchSize (checksums.sort (· ≤ ·)) = checksums.sort (· ≤ ·) := by
      rw [collected, dif_neg (by omega)]
    refine ⟨fun _ => ⟨(collected_eq_iff (by decide) sorted).mp all, by simp⟩, fun _ => ⟨1, ?_⟩⟩
    have small : (asked checksums []).length < batchSize := by
      have : 0 < batchSize := by decide
      rw [first]
      omega
    rw [paginate_last 0 small, first, nil_append]
  | some last =>
    by_cases empty : last = []
    · subst empty
      refine ⟨fun ⟨fuel, done⟩ => ?_, fun condition => absurd rfl condition.2⟩
      rw [paginate_stuck found] at done
      cases done
    · rw [read_all_iff found empty, collected_eq_iff (by decide) sorted]
      simp [empty]

theorem sort_replicate (n : Nat) (checksum : Text) :
    (Multiset.replicate n checksum).sort (· ≤ ·) = List.replicate n checksum := by
  rw [eq_replicate_iff, Multiset.length_sort, Multiset.card_replicate]
  exact ⟨rfl, fun other member => Multiset.eq_of_mem_replicate ((Multiset.mem_sort _).mp member)⟩

/-- Of 1001 equal checksums the last one is lost. -/
theorem equal_checksums_lost :
    calculateChecksumOfChecksums id (indexer (Multiset.replicate 1001 ['a'])) 2 =
      some (List.replicate 1000 ['a']).flatten ∧
    ((Multiset.replicate 1001 ['a']).sort (· ≤ ·)).flatten = (List.replicate 1001 ['a']).flatten ∧
    ∀ fuel, calculateChecksumOfChecksums id (indexer (Multiset.replicate 1001 ['a'])) fuel ≠
      some ((Multiset.replicate 1001 ['a']).sort (· ≤ ·)).flatten := by
  have sorted := sort_replicate 1001 ['a']
  have first : asked (Multiset.replicate 1001 ['a']) [] = List.replicate 1001 ['a'] :=
    (asked_nil _).trans sorted
  have second : asked (Multiset.replicate 1001 ['a']) ['a'] = [] := by
    rw [asked, if_neg (cons_ne_nil _ _), sorted]
    exact eq_nil_iff_forall_not_mem.mpr fun checksum member =>
      absurd (eq_of_mem_replicate (mem_beyond.mp member).1) (mem_beyond.mp member).2.ne'
  have read : paginate (indexer (Multiset.replicate 1001 ['a'])) 2 [] [] =
      some (List.replicate 1000 ['a']).flatten := by
    have page : (List.replicate 1001 ['a']).take batchSize = List.replicate 1000 ['a'] := by
      rw [take_replicate]
      rfl
    have found : (asked (Multiset.replicate 1001 ['a']) [])[batchSize - 1]? = some ['a'] := by
      rw [first, getElem?_replicate]
      rfl
    rw [paginate_full 1 found, first, page, paginate_last 0 (by rw [second]; decide), second,
      nil_append, flatten_nil, append_nil]
  refine ⟨by rw [calculateChecksumOfChecksums, read]; rfl, congrArg _ sorted, fun fuel done => ?_⟩
  rw [calculateChecksumOfChecksums, Option.map_id, id, sorted] at done
  have length := congrArg List.length (paginate_unique read done)
  rw [length_flatten, length_flatten, map_replicate, map_replicate,
    sum_replicate, sum_replicate] at length
  exact absurd length (by decide)

end GuardSarm.Inventory
