import DeclaredApi.Proofs.Cache.Effect
import DeclaredApi.Proofs.Cache.Identity
import DeclaredApi.Proofs.Service.Names

/-!
# `DeclaredApi.Proofs.Cache.Clearing`: clearing a service or an operation

The keys of a service start with its name and a dot, and those of an operation with both
names and their dots. `clears_names` says which entries go when the keys with such a start are
cleared. The entries are told apart by what they were made for (`Origin`).

* The digest at the end of a key never matters, because it has no dot in it
  (`startsWith_key`). So what goes is decided by the two names alone.
* Of services whose names are apart (`Apart`), clearing the start of one drops exactly the
  entries that were made for it. Names without dots are apart (`apart_of_dotless`).
* If also no operation is named like another one with a dot and more after it, clearing the
  start of an operation drops exactly the entries that were made for it.

Without such a condition it is not so (`not_clears_own`). A name may have dots in it, so a
service may be named like another one with a dot and more after it, and clearing the start of
the other drops its entries too.
-/

set_option autoImplicit false

namespace DeclaredApi.Cache

/-! ### Texts that end in a mark -/

section Marks

variable {α : Type} {mark : α} {xs ys rest : List α}

/-- What ends in a mark and starts a list starts its part before the last characters that are
not the mark. The induction takes the last of them away. -/
theorem concat_prefix_append_iff (h : mark ∉ rest) :
    xs ++ [mark] <+: ys ++ rest ↔ xs ++ [mark] <+: ys := by
  induction rest using List.reverseRecOn with
  | nil => rw [List.append_nil]
  | append_singleton rest last ih =>
      rw [List.mem_append, List.mem_singleton, not_or] at h
      have hlast : xs ++ [mark] ≠ ys ++ rest ++ [last] := by
        intro heq
        exact h.2 (List.cons.inj (List.append_inj' heq rfl).2).1
      rw [← List.append_assoc, List.prefix_concat_iff, or_iff_right hlast, ih h.1]

/-- Two texts that are followed by a mark at the start of one list are one text, unless one of
them goes on after the other and a mark. -/
theorem eq_of_marked_starts (h : xs ++ [mark] <+: ys ++ [mark] ++ rest)
    (hxs : ¬ ys ++ [mark] <+: xs) (hys : ¬ xs ++ [mark] <+: ys) : xs = ys := by
  rcases List.prefix_or_prefix_of_prefix h (List.prefix_append _ _) with h | h
  · rcases List.prefix_concat_iff.mp h with heq | h
    · exact List.append_cancel_right heq
    · exact absurd h hys
  · rcases List.prefix_concat_iff.mp h with heq | h
    · exact (List.append_cancel_right heq).symm
    · exact absurd h hxs

end Marks

/-! ### What a key is made for -/

/-- What an entry is made for: the names of a service and of its operation, and the parts of the
request. -/
structure Origin where
  service : String
  operation : String
  url : String
  headers : Dict String := []
  body : Option Json := none

namespace Origin

/-- The key of the entry. -/
def key (origin : Origin) : String :=
  Cache.key origin.service origin.operation origin.url origin.headers origin.body

/-- The two names with their dots. -/
def names (origin : Origin) : String :=
  origin.service ++ "." ++ origin.operation ++ "."

/-- An accepted service has the name and an operation of that name. -/
def Accepted (origin : Origin) : Prop :=
  ∃ service : Service, service.check = .ok () ∧ service.name = origin.service ∧
    origin.operation ∈ service.operationNames

end Origin

/-- A text starts with a name and a dot where its characters do. -/
theorem startsWith_dot_iff {text start : String} :
    text.startsWith (start ++ ".") = true ↔ start.toList ++ ['.'] <+: text.toList := by
  rw [String.startsWith_string_iff, String.toList_append]
  rfl

/-- The start of a key is the name of the service, a dot, the name of the operation, and a dot. -/
theorem Origin.toList_names (origin : Origin) :
    origin.names.toList = origin.service.toList ++ ['.'] ++ (origin.operation.toList ++ ['.']) := by
  simp [Origin.names, String.toList_append]

/-- A key starts with a text and a dot exactly where its two names with their dots do. -/
theorem startsWith_key (origin : Origin) (start : String) :
    origin.key.startsWith (start ++ ".") = origin.names.startsWith (start ++ ".") := by
  rw [Bool.eq_iff_iff, startsWith_dot_iff, startsWith_dot_iff, Origin.key, toList_key]
  exact concat_prefix_append_iff (not_mem_shortDigest_dot _)

/-! ### Names that are apart -/

/-- Neither name goes on after the other one and a dot. -/
structure Apart (name other : String) : Prop where
  name_after : name.startsWith (other ++ ".") = false
  other_after : other.startsWith (name ++ ".") = false

/-- A name without dots goes on after no other name and a dot. -/
theorem startsWith_of_dotless {name : String} (h : '.' ∉ name.toList) (other : String) :
    name.startsWith (other ++ ".") = false := by
  rw [← Bool.not_eq_true, startsWith_dot_iff]
  intro hstart
  exact h (hstart.subset (by simp))

/-- Different names without dots are apart. -/
theorem apart_of_dotless {name other : String} (hname : '.' ∉ name.toList)
    (hother : '.' ∉ other.toList) : Apart name other :=
  ⟨startsWith_of_dotless hname other, startsWith_of_dotless hother name⟩

variable {origin : Origin} {service operation : String}

/-- The start of a service is the start of an origin exactly where the origin has that service. -/
theorem startsWith_names_service_iff (h : Apart service origin.service) :
    origin.names.startsWith (service ++ ".") = true ↔ origin.service = service := by
  obtain ⟨hservice, horigin⟩ := h
  rw [← Bool.not_eq_true, startsWith_dot_iff] at hservice horigin
  rw [startsWith_dot_iff, Origin.toList_names]
  constructor
  · intro hstart
    exact (String.toList_inj.mp (eq_of_marked_starts hstart hservice horigin)).symm
  · rintro rfl
    exact List.prefix_append _ _

/-- The start of an operation is the start of an origin exactly where the origin has that
operation of that service. -/
theorem startsWith_names_operation_iff (hservice : Apart service origin.service)
    (hoperation : origin.service = service →
      origin.operation.startsWith (operation ++ ".") = false) :
    origin.names.startsWith (service ++ "." ++ operation ++ ".") = true ↔
      origin.service = service ∧ origin.operation = operation := by
  constructor
  · intro hstart
    rw [startsWith_dot_iff, String.toList_append, String.toList_append, List.append_assoc] at hstart
    -- The start of the operation begins with the start of its service.
    have hname : origin.service = service := by
      rw [← startsWith_names_service_iff hservice, startsWith_dot_iff]
      exact (List.prefix_append _ _).trans hstart
    refine ⟨hname, ?_⟩
    subst hname
    rw [Origin.toList_names] at hstart
    have hlonger := hoperation rfl
    rw [← Bool.not_eq_true, startsWith_dot_iff] at hlonger
    rcases List.prefix_concat_iff.mp ((List.prefix_append_right_inj _).mp hstart) with heq | h
    · exact (String.toList_inj.mp (List.append_cancel_right heq)).symm
    · exact absurd h hlonger
  · rintro ⟨rfl, rfl⟩
    exact String.startsWith_string_iff.mpr List.prefix_rfl

/-! ### What goes when a start is cleared -/

/-- Entries under the keys of what they were made for. -/
def entriesFor (made : List (Origin × Entry)) : Entries :=
  made.map fun (origin, entry) => (origin.key, entry)

/-- Of entries that were `made`, clearing the keys that start with `start` drops exactly those
for the `chosen` origins. It answers with their number, and it fails exactly where the file cannot
be written. -/
structure Clears (made : List (Origin × Entry)) (cache : Cache) (start : String)
    (chosen : Origin → Prop) [DecidablePred chosen] : Prop where
  entries : (cache.clearStart start).2.entries
    = entriesFor (made.filter fun (origin, _) => ¬ chosen origin)
  answer : cache.file.writeFault? = none →
    (cache.clearStart start).1 = .ok (made.countP fun (origin, _) => chosen origin)
  failure : ∀ fault, cache.file.writeFault? = some fault →
    (cache.clearStart start).1 = .error fault.error

variable {made : List (Origin × Entry)} {cache : Cache}

/-- Clearing by a start drops the entries of the chosen origins and no others, if exactly their
keys have that start. -/
theorem clears_of_startsWith_iff (hmade : cache.entries = entriesFor made) {start : String}
    {chosen : Origin → Prop} [DecidablePred chosen]
    (h : ∀ m ∈ made, m.1.key.startsWith start = true ↔ chosen m.1) :
    Clears made cache start chosen := by
  have hkept : cache.entries.filter (fun entry => ¬ entry.1.startsWith start)
      = entriesFor (made.filter fun (origin, _) => ¬ chosen origin) := by
    rw [hmade, entriesFor, entriesFor, List.filter_map]
    refine congrArg _ (List.filter_congr fun m hmem => ?_)
    simp only [Function.comp_apply, h m hmem]
  -- What is dropped and what is kept make up all entries.
  have hcount : made.length = made.countP (fun (origin, _) => chosen origin)
      + (made.filter fun (origin, _) => ¬ chosen origin).length := by
    rw [← List.countP_eq_length_filter]
    simpa using List.length_eq_countP_add_countP fun m : Origin × Entry => decide (chosen m.1)
  constructor
  · rw [clearStart, entries_saveThen]
    exact hkept
  · intro hwritable
    rw [clearStart, saveThen_of_writable (by exact hwritable), hkept, hmade, entriesFor, entriesFor,
      List.length_map, List.length_map, hcount, Nat.add_sub_cancel_right]
  · intro fault hfault
    rw [clearStart, saveThen_of_fault (by exact hfault)]

/-- What goes with a start that ends in a dot is what was made for names that start so. -/
theorem clears_names_start (hmade : cache.entries = entriesFor made) (start : String) :
    Clears made cache (start ++ ".") fun origin => origin.names.startsWith (start ++ ".") = true :=
  clears_of_startsWith_iff hmade fun m _ => by rw [startsWith_key]

/-- What goes when a start is cleared. For any start with a dot, it is what was made for names
that start so. For the start of a service, it is what was made for that service, if its name
is apart from those of all entries. For the start of an operation, it is what was made
for that operation of that service, if also no other operation of the service is named like
it with a dot and more after it. -/
theorem clears_names (hmade : cache.entries = entriesFor made) :
    (∀ start : String, Clears made cache (start ++ ".") fun origin =>
      origin.names.startsWith (start ++ ".") = true) ∧
    (∀ service : String, (∀ m ∈ made, Apart service m.1.service) →
      Clears made cache (service ++ ".") fun origin => origin.service = service) ∧
    (∀ service operation : String,
      (∀ m ∈ made, Apart service m.1.service) →
      (∀ m ∈ made, m.1.service = service →
        m.1.operation.startsWith (operation ++ ".") = false) →
      Clears made cache (service ++ "." ++ operation ++ ".") fun origin =>
        origin.service = service ∧ origin.operation = operation) := by
  refine ⟨clears_names_start hmade, fun service hservice => ?_,
    fun service operation hservice hop => ?_⟩
  · refine clears_of_startsWith_iff hmade fun m hmem => ?_
    rw [startsWith_key, startsWith_names_service_iff (hservice m hmem)]
  · refine clears_of_startsWith_iff hmade fun m hmem => ?_
    rw [startsWith_key, startsWith_names_operation_iff (hservice m hmem) (hop m hmem)]

/-- An entry for an operation of a service. -/
def madeFor (service operation : String) : Origin × Entry :=
  ({ service, operation, url := "http://h/users" }, { data := .null, timestamp := 0, ttl := 60 })

/-- Entries of two services, of which one has two operations. -/
def madeForShops : List (Origin × Entry) :=
  [madeFor "bank" "users", madeFor "shop" "orders", madeFor "shop" "users"]

/-- Clearing one operation of the shop leaves the other one and the bank. -/
theorem clears_shopUsers :
    Clears madeForShops { entries := entriesFor madeForShops } "shop.users." fun origin =>
      origin.service = "shop" ∧ origin.operation = "users" := by
  have hmade : ({ entries := entriesFor madeForShops } : Cache).entries
      = entriesFor madeForShops := rfl
  refine (clears_names hmade).2.2 "shop" "users" ?_ ?_
  · simp only [madeForShops, List.forall_mem_cons, List.not_mem_nil, false_implies, implies_true,
      and_true, madeFor]
    exact ⟨apart_of_dotless (by decide) (by decide), apart_of_dotless (by decide) (by decide),
      apart_of_dotless (by decide) (by decide)⟩
  · simp only [madeForShops, List.forall_mem_cons, List.not_mem_nil, false_implies, implies_true,
      and_true, madeFor]
    exact ⟨fun _ => startsWith_of_dotless (by decide) _,
      fun _ => startsWith_of_dotless (by decide) _, fun _ => startsWith_of_dotless (by decide) _⟩

/-- A service with one operation that is kept. -/
def serviceOf (name operation : String) : Service :=
  { name, baseUrl := "http://h"
    endpoints := [{ name := operation, call := ⟨.get, "/users"⟩, cacheSeconds := some 60 }] }

/-- The rules only ask that its names are not blank. -/
theorem check_serviceOf {name operation : String} (hname : Text.isBlankString name = false)
    (hoperation : Text.isBlankString operation = false) :
    (serviceOf name operation).check = .ok () := by
  refine Service.check_of_operations_eq rfl rfl hname (by simp [serviceOf]) ?_
  exact Operation.check_eq_ok_iff.mpr ⟨hoperation, by simp [Operation.template?, Operation.mapCall],
    fun _ => rfl⟩

/-- So every two names that are not blank occur in a key. -/
theorem accepted_madeFor {service operation : String}
    (hservice : Text.isBlankString service = false)
    (hoperation : Text.isBlankString operation = false) :
    (madeFor service operation).1.Accepted :=
  ⟨serviceOf service operation, check_serviceOf hservice hoperation, rfl, List.mem_cons_self⟩

/-- An entry goes with a start of its names, whether it was made for what is chosen or not. -/
theorem not_clears_of_startsWith {m : Origin × Entry} {start : String} {chosen : Origin → Prop}
    [DecidablePred chosen] (hstart : m.1.names.startsWith (start ++ ".") = true)
    (hchosen : ¬ chosen m.1) :
    ¬ Clears [m] { entries := entriesFor [m] } (start ++ ".") chosen := by
  intro hclears
  have hmade : ({ entries := entriesFor [m] } : Cache).entries = entriesFor [m] := rfl
  have hgone := (clears_names_start hmade start).entries
  rw [hclears.entries] at hgone
  rw [startsWith_dot_iff] at hstart
  simp [entriesFor, hstart, hchosen] at hgone

/-- It is not so that clearing the start of an accepted service drops the entries made for it
and no others, nor that clearing the start of one of its operations does: names may have dots.
The start of `shop` is that of `shop.eu` too, and the start of its operation `users` that of
`users.list`. -/
theorem not_clears_own :
    (¬ ∀ (made : List (Origin × Entry)) (cache : Cache), cache.entries = entriesFor made →
      (∀ m ∈ made, m.1.Accepted) → ∀ service : Service, service.check = .ok () →
      Clears made cache (service.name ++ ".") fun origin => origin.service = service.name) ∧
    (¬ ∀ (made : List (Origin × Entry)) (cache : Cache), cache.entries = entriesFor made →
      (∀ m ∈ made, m.1.Accepted) → ∀ service : Service, service.check = .ok () →
      ∀ operation ∈ service.operationNames,
      Clears made cache (service.name ++ "." ++ operation ++ ".") fun origin =>
        origin.service = service.name ∧ origin.operation = operation) := by
  have hblank : Text.isBlankString "shop" = false ∧ Text.isBlankString "shop.eu" = false ∧
      Text.isBlankString "users" = false ∧ Text.isBlankString "users.list" = false := by decide
  obtain ⟨hshop, hshopEu, husers, husersList⟩ := hblank
  constructor
  · intro h
    have hgone : ¬ Clears [madeFor "shop.eu" "users"] _ ("shop" ++ ".") fun origin =>
        origin.service = "shop" :=
      not_clears_of_startsWith (by simp [madeFor, Origin.names, String.startsWith_string_iff])
        (by simp [madeFor])
    refine hgone (h _ _ rfl ?_ (serviceOf "shop" "users") (check_serviceOf hshop husers))
    simpa using accepted_madeFor hshopEu husers
  · intro h
    have hgone : ¬ Clears [madeFor "shop" "users.list"] _ ("shop.users" ++ ".") fun origin =>
        origin.service = "shop" ∧ origin.operation = "users" :=
      not_clears_of_startsWith (by simp [madeFor, Origin.names, String.startsWith_string_iff])
        (by simp [madeFor])
    refine hgone (h _ _ rfl ?_ (serviceOf "shop" "users") (check_serviceOf hshop husers) "users"
      List.mem_cons_self)
    simpa using accepted_madeFor hshop husersList

end DeclaredApi.Cache
