import Mathlib.Data.List.Nodup
import ShapeScribe.Capture
import ShapeScribe.Proofs.Attempt

/-!
Captures one behind another. When the first ends with a line of its own, the lines of both are those of the first and
then those of the second, so the entries are too, and a line at fault in the second is counted on from the first. The
second capture adds the routes that the first does not have, and a route keeps the name that its first line gives.
-/

namespace ShapeScribe.Capture

open Attempt

variable {head tail : List UInt8} {line : List UInt8} {e : Entry} {routes more : List Route} {r : Route}

-- Bytes in which every line has its end.
def Ended (bytes : List UInt8) : Prop := bytes = [] ∨ bytes.getLast? = some 10

theorem Ended.eq_nil_or_concat (h : Ended head) : head = [] ∨ ∃ front, head = front ++ [10] := by
  obtain hnil | hlast := h
  · exact .inl hnil
  · obtain ⟨front, hfront⟩ := List.getLast?_eq_some_iff.mp hlast
    exact .inr ⟨front, hfront⟩

theorem lines_go_cons (line : List UInt8) (b : UInt8) (rest : List UInt8) :
    lines.go line (b :: rest) =
      if b = 10 then (b :: line).reverse :: lines.go [] rest else lines.go (b :: line) rest := by
  cases line <;> rfl

-- A line feed ends the line that is being read, whatever follows.
theorem lines_go_line_feed (line front rest : List UInt8) :
    lines.go line (front ++ 10 :: rest) = lines.go line (front ++ [10]) ++ lines rest := by
  induction front generalizing line with
  | nil =>
      rw [List.nil_append, List.nil_append, lines_go_cons, lines_go_cons, if_pos rfl, if_pos rfl]
      rfl
  | cons b front ih =>
      rw [List.cons_append, List.cons_append, lines_go_cons, lines_go_cons, ih, ih]
      split <;> simp

theorem length_lines_go (line front : List UInt8) :
    (lines.go line (front ++ [10])).length = front.count 10 + 1 := by
  induction front generalizing line with
  | nil =>
      rw [List.nil_append, lines_go_cons, if_pos rfl]
      rfl
  | cons b front ih =>
      rw [List.cons_append, lines_go_cons, List.count_cons]
      by_cases hb : b = 10
      · simp [hb, ih]
      · simp [hb, ih]

theorem lines_append (ended : Ended head) (tail : List UInt8) : lines (head ++ tail) = lines head ++ lines tail := by
  obtain rfl | ⟨front, rfl⟩ := ended.eq_nil_or_concat
  · rfl
  · rw [List.append_assoc, List.singleton_append]
    exact lines_go_line_feed [] front tail

theorem length_lines (ended : Ended head) : (lines head).length = head.count 10 := by
  obtain rfl | ⟨front, rfl⟩ := ended.eq_nil_or_concat
  · rfl
  · rw [List.count_append, List.count_singleton_self]
    exact length_lines_go [] front

-- A blank line holds nothing, even if something could be read from it.
def held? (line : List UInt8) : Option Entry := if isBlank line then none else entry? line

-- The lines above are read first, and the number of the first line below them counts them all.
theorem entriesFrom_append (number : Nat) (above below : List (List UInt8)) :
    entriesFrom number (above ++ below) =
      entriesFrom number above >>= fun es => (entriesFrom (number + above.length) below).map (es ++ ·) := by
  induction above generalizing number with
  | nil => cases hbelow : entriesFrom number below <;> simp [entriesFrom, bind, Except.bind, Except.map, hbelow]
  | cons line above ih =>
      have hnumber : number + (line :: above).length = number + 1 + above.length := by
        rw [List.length_cons]
        omega
      rw [List.cons_append, entriesFrom, entriesFrom, ih, hnumber]
      split
      · rfl
      · split
        · rfl
        · cases entriesFrom (number + 1) above with
          | error n => rfl
          | ok es => cases entriesFrom (number + 1 + above.length) below <;> rfl

-- Lines that stand further down only change the number of the one at fault.
theorem entriesFrom_add (before number : Nat) (below : List (List UInt8)) :
    entriesFrom (before + number) below = (entriesFrom number below).mapError (before + ·) := by
  induction below generalizing number with
  | nil => rfl
  | cons line below ih =>
      rw [entriesFrom, entriesFrom, Nat.add_assoc, ih]
      split
      · rfl
      · split
        · rfl
        · cases entriesFrom (number + 1) below <;> rfl

-- Without a fault, the entries are what the lines hold.
theorem filterMap_held? {number : Nat} {ls : List (List UInt8)} {entries : List Entry}
    (h : entriesFrom number ls = .ok entries) : ls.filterMap held? = entries := by
  fun_induction entriesFrom number ls generalizing entries with
  | case1 number =>
      cases h
      rfl
  | case2 number line rest hblank ih => rw [List.filterMap_cons_none (by simp [held?, hblank]), ih h]
  | case3 => cases h
  | case4 number line rest hblank e hentry ih =>
      obtain ⟨es, hes, rfl⟩ := except_map_eq_ok.mp h
      rw [List.filterMap_cons_some (b := e) (by simp [held?, hblank, hentry]), ih hes]

def Entry.route (e : Entry) : Route := ⟨e.observation.routeId, e.routeName⟩

theorem addRoute_of_mem (h : e.route.id ∈ routes.map (·.id)) : addRoute routes e = routes := by
  apply if_pos
  simpa [Entry.route] using h

theorem addRoute_of_notMem (h : e.route.id ∉ routes.map (·.id)) : addRoute routes e = routes ++ [e.route] := by
  apply if_neg
  simpa [Entry.route] using h

-- The routes of a table whose ids another one lacks.
def beyond (routes more : List Route) : List Route := more.filter (·.id ∉ routes.map (·.id))

theorem beyond_concat_of_mem (h : r.id ∈ routes.map (·.id)) (more : List Route) :
    beyond routes (more ++ [r]) = beyond routes more := by
  rw [beyond, List.filter_append, List.filter_cons_of_neg (by simpa using h), List.filter_nil, List.append_nil, beyond]

theorem beyond_concat_of_notMem (h : r.id ∉ routes.map (·.id)) (more : List Route) :
    beyond routes (more ++ [r]) = beyond routes more ++ [r] := by
  rw [beyond, List.filter_append, List.filter_cons_of_pos (by simpa using h), List.filter_nil, beyond]

theorem mem_ids_append_beyond {id : String} :
    id ∈ (routes ++ beyond routes more).map (·.id) ↔ id ∈ routes.map (·.id) ∨ id ∈ more.map (·.id) := by
  by_cases hid : id ∈ routes.map (·.id)
  · simp [hid]
  · have hbeyond : id ∈ (beyond routes more).map (·.id) ↔ id ∈ more.map (·.id) := by
      constructor
      · intro h
        obtain ⟨r, hr, rfl⟩ := List.mem_map.mp h
        exact List.mem_map_of_mem (List.mem_of_mem_filter hr)
      · intro h
        obtain ⟨r, hr, rfl⟩ := List.mem_map.mp h
        exact List.mem_map_of_mem (List.mem_filter.mpr ⟨hr, decide_eq_true hid⟩)
    rw [List.map_append, List.mem_append, hbeyond]

-- A table that grows behind another one grows by what it would grow by alone, less what the other one has.
theorem addRoute_append_beyond (routes more : List Route) (e : Entry) :
    addRoute (routes ++ beyond routes more) e = routes ++ beyond routes (addRoute more e) := by
  by_cases hmore : e.route.id ∈ more.map (·.id)
  · rw [addRoute_of_mem hmore, addRoute_of_mem (mem_ids_append_beyond.mpr (.inr hmore))]
  · rw [addRoute_of_notMem hmore]
    by_cases hroutes : e.route.id ∈ routes.map (·.id)
    · rw [beyond_concat_of_mem hroutes, addRoute_of_mem (mem_ids_append_beyond.mpr (.inl hroutes))]
    · have hnew : e.route.id ∉ (routes ++ beyond routes more).map (·.id) := by
        rw [mem_ids_append_beyond]
        exact not_or.mpr ⟨hroutes, hmore⟩
      rw [addRoute_of_notMem hnew, beyond_concat_of_notMem hroutes, List.append_assoc]

-- Induction on the entries: the table that grows alone changes with each of them.
theorem foldl_addRoute_beyond (routes more : List Route) (entries : List Entry) :
    entries.foldl addRoute (routes ++ beyond routes more) = routes ++ beyond routes (entries.foldl addRoute more) := by
  induction entries generalizing more with
  | nil => rfl
  | cons e entries ih => rw [List.foldl_cons, List.foldl_cons, addRoute_append_beyond, ih]

theorem ofEntries_append (before after : List Entry) :
    ofEntries (before ++ after) =
      ⟨(ofEntries before).routes ++ beyond (ofEntries before).routes (ofEntries after).routes,
        (ofEntries before).observations ++ (ofEntries after).observations⟩ := by
  have hroutes := foldl_addRoute_beyond (ofEntries before).routes [] after
  rw [beyond, List.filter_nil, List.append_nil] at hroutes
  rw [ofEntries, List.foldl_append, List.map_append]
  exact congrArg (Capture.mk · _) hroutes

-- What the first entry says of its route stands.
theorem routes_ofEntries_cons (e : Entry) (after : List Entry) :
    (ofEntries (e :: after)).routes = e.route :: (ofEntries after).routes.filter (·.id ≠ e.route.id) := by
  have happend := congrArg Capture.routes (ofEntries_append [e] after)
  simpa [ofEntries, addRoute_of_notMem, beyond] using happend

theorem nodup_routes_ofEntries (entries : List Entry) : ((ofEntries entries).routes.map (·.id)).Nodup := by
  induction entries with
  | nil => exact List.nodup_nil
  | cons e after ih =>
      rw [routes_ofEntries_cons, List.map_cons, List.nodup_cons]
      constructor
      · simp
      · exact ih.sublist (List.filter_sublist.map _)

-- Of the lines for an id, the first introduces the route, under the name that it gives.
def Introduces (ls : List (List UInt8)) (r : Route) : Prop :=
  ∃ before line after e, ls = before ++ line :: after ∧ held? line = some e ∧ e.route = r ∧
    ∀ earlier ∈ before, ∀ e, held? earlier = some e → e.route.id ≠ r.id

theorem introduces_cons {ls : List (List UInt8)} :
    Introduces (line :: ls) r ↔
      (∃ e, held? line = some e ∧ e.route = r) ∨
        (∀ e, held? line = some e → e.route.id ≠ r.id) ∧ Introduces ls r := by
  constructor
  · rintro ⟨before, first, after, e, hls, hheld, hroute, hearlier⟩
    cases before with
    | nil =>
        cases hls
        exact .inl ⟨e, hheld, hroute⟩
    | cons top before =>
        cases hls
        rw [List.forall_mem_cons] at hearlier
        exact .inr ⟨hearlier.1, before, first, after, e, rfl, hheld, hroute, hearlier.2⟩
  · rintro (⟨e, hheld, hroute⟩ | ⟨hother, before, first, after, e, rfl, hheld, hroute, hearlier⟩)
    · exact ⟨[], line, ls, e, rfl, hheld, hroute, by simp⟩
    · exact ⟨line :: before, first, after, e, rfl, hheld, hroute, List.forall_mem_cons.mpr ⟨hother, hearlier⟩⟩

theorem mem_routes_ofEntries (ls : List (List UInt8)) :
    r ∈ (ofEntries (ls.filterMap held?)).routes ↔ Introduces ls r := by
  induction ls with
  | nil => simp [ofEntries, Introduces]
  | cons line ls ih =>
      rw [introduces_cons, ← ih]
      cases hheld : held? line with
      | none => simp [hheld]
      | some e =>
          rw [List.filterMap_cons_some hheld, routes_ofEntries_cons, List.mem_cons, List.mem_filter, decide_eq_true_eq]
          simp only [Option.some.injEq, exists_eq_left', forall_eq']
          rw [and_comm, eq_comm, ne_comm]

theorem read_eq_ok {bytes : List UInt8} {c : Capture} :
    read bytes = .ok c ↔ ∃ entries, entriesFrom 1 (lines bytes) = .ok entries ∧ ofEntries entries = c :=
  except_map_eq_ok

theorem read_eq_error {bytes : List UInt8} {n : Nat} : read bytes = .error n ↔ entriesFrom 1 (lines bytes) = .error n :=
  map_eq_error

theorem mem_routes_of_read {bytes : List UInt8} {c : Capture} (h : read bytes = .ok c) :
    (c.routes.map (·.id)).Nodup ∧ ∀ r, r ∈ c.routes ↔ Introduces (lines bytes) r := by
  obtain ⟨entries, hentries, rfl⟩ := read_eq_ok.mp h
  rw [← filterMap_held? hentries]
  exact ⟨nodup_routes_ofEntries _, fun r => mem_routes_ofEntries _⟩

theorem entriesFrom_lines_append (ended : Ended head) (tail : List UInt8) :
    entriesFrom 1 (lines (head ++ tail)) =
      entriesFrom 1 (lines head) >>= fun es =>
        ((entriesFrom 1 (lines tail)).mapError (head.count 10 + ·)).map (es ++ ·) := by
  rw [lines_append ended, entriesFrom_append, Nat.add_comm 1, entriesFrom_add, length_lines ended]

-- Two captures read as one: the first ends with a line of its own, or is empty.
theorem read_append (ended : head = [] ∨ head.getLast? = some 10) (tail : List UInt8) :
    (∀ first second, read head = .ok first → read tail = .ok second →
      ∃ whole, read (head ++ tail) = .ok whole ∧
        whole.observations = first.observations ++ second.observations ∧
        whole.routes = first.routes ++ second.routes.filter (·.id ∉ first.routes.map (·.id)) ∧
        (whole.routes.map (·.id)).Nodup ∧ ∀ r, r ∈ whole.routes ↔ Introduces (lines (head ++ tail)) r) ∧
      (∀ n, read head = .error n → read (head ++ tail) = .error n) ∧
      ∀ first j, read head = .ok first → read tail = .error j →
        read (head ++ tail) = .error (head.count 10 + j) := by
  have happend := entriesFrom_lines_append ended tail
  refine ⟨?_, ?_, ?_⟩
  · intro first second hfirst hsecond
    obtain ⟨above, habove, rfl⟩ := read_eq_ok.mp hfirst
    obtain ⟨below, hbelow, rfl⟩ := read_eq_ok.mp hsecond
    rw [habove, hbelow] at happend
    have hwhole : read (head ++ tail) = .ok (ofEntries (above ++ below)) := read_eq_ok.mpr ⟨_, happend, rfl⟩
    refine ⟨_, hwhole, ?_, ?_, mem_routes_of_read hwhole⟩
    · rw [ofEntries_append]
    · rw [ofEntries_append, beyond]
  · intro n hhead
    rw [read_eq_error.mp hhead] at happend
    exact read_eq_error.mpr happend
  · intro first j hfirst htail
    obtain ⟨above, habove, rfl⟩ := read_eq_ok.mp hfirst
    rw [habove, read_eq_error.mp htail] at happend
    exact read_eq_error.mpr happend

-- A route with a name, and a blank line.
def namedLines : List UInt8 := "\x7b\"route_id\":\"a\",\"route_name\":\"A\"\x7d\n\n".toUTF8.toList

-- The same route without a name, and another one on a line without an end.
def furtherLines : List UInt8 := "\x7b\"route_id\":\"a\"\x7d\n\x7b\"route_id\":\"b\"\x7d".toUTF8.toList

def spoiltLines : List UInt8 := "\n!\n".toUTF8.toList

theorem read_append_namedLines :
    (∃ whole, read (namedLines ++ furtherLines) = .ok whole ∧ whole.routes = [⟨"a", "A"⟩, ⟨"b", "b"⟩] ∧
      whole.observations.length = 3) ∧
      read (namedLines ++ spoiltLines) = .error 4 ∧
      read (spoiltLines ++ namedLines) = .error 2 := by
  have hnamed : (read namedLines).map (fun c => (c.routes, c.observations.length)) = .ok ([⟨"a", "A"⟩], 1) := by
    decide +kernel
  have hfurther :
      (read furtherLines).map (fun c => (c.routes, c.observations.length)) = .ok ([⟨"a", "a"⟩, ⟨"b", "b"⟩], 2) := by
    decide +kernel
  have hspoilt : (read spoiltLines).map (fun c => c.routes) = .error 2 := by decide +kernel
  obtain ⟨first, hfirst, hnamed⟩ := except_map_eq_ok.mp hnamed
  obtain ⟨second, hsecond, hfurther⟩ := except_map_eq_ok.mp hfurther
  rw [Prod.mk.injEq] at hnamed hfurther
  have hended : namedLines.getLast? = some 10 := by decide +kernel
  refine ⟨?_, ?_, ?_⟩
  · obtain ⟨whole, hwhole, hobservations, hroutes, _⟩ :=
      (read_append (.inr hended) furtherLines).1 first second hfirst hsecond
    refine ⟨whole, hwhole, ?_, ?_⟩
    · rw [hroutes, hnamed.1, hfurther.1]
      decide
    · rw [hobservations, List.length_append, hnamed.2, hfurther.2]
  · have hcount : namedLines.count 10 = 2 := by decide +kernel
    have herror := (read_append (.inr hended) spoiltLines).2.2 first 2 hfirst (map_eq_error.mp hspoilt)
    rwa [hcount] at herror
  · have hended : spoiltLines.getLast? = some 10 := by decide +kernel
    exact (read_append (.inr hended) namedLines).2.1 2 (map_eq_error.mp hspoilt)

end ShapeScribe.Capture
