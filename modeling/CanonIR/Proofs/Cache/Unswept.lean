import CanonIR.Cache.Script
import CanonIR.Proofs.Cache.Weak

/-!
Sweeping is invisible. Beside a weak cache stands the map that it stands for, which never sweeps:
under each address the item that was inserted there last, until the address is forgotten, and a
look-up sees it as long as a slot holds it. Every script gets the same answers from both, but for
the numbers of entries, and leaves the same items in the same slots (`run_observed`).
-/

namespace CanonIR

/-- Two sights of one object agree after some objects have died, if they agreed before. -/
theorem filter_eq_of_le {α : Type} {alive alive' : α → Bool} {x y : Option α}
    (h : x.filter alive = y.filter alive) (hx : ∀ a, x = some a → alive' a = true → alive a = true)
    (hy : ∀ a, y = some a → alive' a = true → alive a = true) :
    x.filter alive' = y.filter alive' := by
  have sub {x y : Option α} (h : x.filter alive = y.filter alive)
      (hx : ∀ a, x = some a → alive' a = true → alive a = true) (a : α)
      (ha : x.filter alive' = some a) : y.filter alive' = some a := by
    obtain ⟨rfl, ha'⟩ := Option.filter_eq_some_iff.mp ha
    have h1 : (some a).filter alive = some a := Option.filter_some_pos (hx a rfl ha')
    rw [h1] at h
    exact Option.filter_eq_some_iff.mpr ⟨(Option.filter_eq_some_iff.mp h.symm).1, ha'⟩
  ext a
  exact ⟨sub h hx a, sub h.symm hy a⟩

namespace CacheScript

/-! ## The map without sweeps -/

/-- Under each address the item that was inserted there last since the address was forgotten. -/
structure Unswept where
  entries : Table Nat Item := ∅
  slots : Slots Item := ∅
  nextId : Nat := 0

namespace Unswept

/-- Whether a slot holds the item. -/
def alive (u : Unswept) (i : Item) : Bool := u.slots.entries.any (·.2.id == i.id)

/-- The item under an address, as long as a slot holds it. -/
def lookup (u : Unswept) (key : Nat) : Option Item := (u.entries.get? key).filter u.alive

/-- The number of addresses under which a look-up sees an item. -/
def liveCount (u : Unswept) : Nat := (u.entries.filter fun _ i => u.alive i).size

def insert (u : Unswept) (key : Nat) (i : Item) : Unswept :=
  { u with entries := u.entries.insert key i }

def forget (u : Unswept) (key : Nat) : Unswept := { u with entries := u.entries.erase key }

def describe (u : Unswept) (i : Item) : Found := ⟨i.data, u.slots.namesWhere (·.id == i.id)⟩

def bind (u : Unswept) (into : Option String) (i : Option Item) : Unswept :=
  match into with
  | some name => { u with slots := u.slots.put name i }
  | none => u

def withSlot (u : Unswept) (slot : String) (go : Item → Answer × Unswept) : Answer × Unswept :=
  match u.slots.get? slot with
  | some i => go i
  | none => (.unbound slot, u)

def churnOne (first keep : Nat) (into : String) (u : Unswept) (n : Nat) : Unswept :=
  let i : Item := ⟨u.nextId, toString n⟩
  let u := { u.insert (first + n) i with nextId := u.nextId + 1 }
  if 0 < keep ∧ n % keep = 0 then u.bind (some (into ++ toString n)) (some i) else u

/-- The step that a script takes on the map. The number of entries is no answer of it. -/
def step (u : Unswept) : Step → Answer × Unswept
  | .new data into =>
    (.none, { u.bind (some into) (some ⟨u.nextId, data⟩) with nextId := u.nextId + 1 })
  | .clone slot into => u.withSlot slot fun i => (.none, u.bind (some into) (some i))
  | .drop slot => (.flag (u.slots.contains slot), { u with slots := u.slots.erase slot })
  | .insert key slot => u.withSlot slot fun i => (.none, u.insert key i)
  | .lookup key into => (.found ((u.lookup key).map u.describe), u.bind into (u.lookup key))
  | .getOrInsert key make into =>
    match u.lookup key, make with
    | some i, _ =>
      (.got false (u.describe i), { u with nextId := u.nextId + 1 }.bind into (some i))
    | none, .item data =>
      let i : Item := ⟨u.nextId, data⟩
      (.got true (u.describe i), { u.insert key i with nextId := u.nextId + 1 }.bind into (some i))
    | none, .fail reason => (.makeFailed reason, u)
  | .forget key => (.flag (u.lookup key).isSome, u.forget key)
  | .contains key => (.flag (u.lookup key).isSome, u)
  | .liveCount => (.count u.liveCount, u)
  | .size => (.none, u)
  | .churn first count keep into =>
    let u := (List.range count).foldl (churnOne first keep into) u
    (.count u.liveCount, u)

def run (u : Unswept) : List Step → List Answer × Unswept
  | [] => ([], u)
  | x :: xs =>
    let (a, u) := u.step x
    let (as, u) := u.run xs
    (a :: as, u)

end Unswept

/-- An answer without the number of entries, which counts the dead ones that no sweep has met. -/
def Step.observe : Step → Answer → Answer
  | .size, _ => .none
  | .churn .., .counts live _ => .count live
  | _, a => a

/-! ## Both in step -/

/-- Whether one of the slots holds the item. -/
def heldIn (t : Slots Item) (i : Item) : Bool := t.entries.any (·.2.id == i.id)

theorem heldIn_iff {t : Slots Item} {i : Item} :
    heldIn t i = true ↔ ∃ e ∈ t.entries, e.2.id = i.id := by
  simp [heldIn, List.any_eq_true]

theorem mem_erase {t : Slots Item} {name : String} {e : String × Item}
    (h : e ∈ (t.erase name).entries) : e ∈ t.entries :=
  List.mem_of_mem_filter h

theorem mem_put {t : Slots Item} {name : String} {i : Option Item} {e : String × Item}
    (h : e ∈ (t.put name i).entries) : i = some e.2 ∨ e ∈ t.entries := by
  cases i with
  | none => exact Or.inr (mem_erase h)
  | some i =>
    rcases List.mem_cons.mp h with rfl | h
    · exact Or.inl rfl
    · exact Or.inr (mem_erase h)

/-- A cache and the map without sweeps look the same from outside. Items in slots or tables were
made before, so an item that is made now cannot be one that died. -/
structure Agrees (s : State) (u : Unswept) : Prop where
  slots : u.slots = s.slots
  nextId : u.nextId = s.nextId
  lookup : ∀ key, s.cache.lookup s.alive key = u.lookup key
  slot_lt : ∀ e ∈ s.slots.entries, e.2.id < s.nextId
  cache_lt : ∀ key i, s.cache.entries.get? key = some i → i.id < s.nextId
  entry_lt : ∀ key i, u.entries.get? key = some i → i.id < s.nextId

namespace Agrees

variable {s : State} {u : Unswept}

theorem start : Agrees {} {} where
  slots := rfl
  nextId := rfl
  lookup _ := rfl
  slot_lt e he := by simp [EmptyCollection.emptyCollection, Table.empty] at he
  cache_lt key i h := by simp [EmptyCollection.emptyCollection] at h
  entry_lt key i h := by simp [EmptyCollection.emptyCollection] at h

theorem alive_eq (h : Agrees s u) : u.alive = s.alive := by
  funext i
  simp only [Unswept.alive, State.alive, h.slots]

theorem describe_eq (h : Agrees s u) (i : Item) : u.describe i = s.describe i := by
  simp only [Unswept.describe, State.describe, h.slots]

theorem liveCount_eq (h : Agrees s u) : s.liveCount = u.liveCount := by
  have hl (k : Nat) : s.cache.lookup s.alive k = (u.entries.get? k).filter s.alive := by
    rw [h.lookup, Unswept.lookup, h.alive_eq]
  rw [State.liveCount, WeakCache.liveCount_eq_of_lookup hl, Unswept.liveCount, h.alive_eq]

/-- Look-ups agree also after some of the items made so far have died. -/
theorem lookup_of_le (h : Agrees s u) {alive : Item → Bool}
    (hle : ∀ i : Item, i.id < s.nextId → alive i = true → s.alive i = true) (key : Nat) :
    s.cache.lookup alive key = (u.entries.get? key).filter alive := by
  have hl := h.lookup key
  rw [Unswept.lookup, h.alive_eq] at hl
  exact filter_eq_of_le hl (fun i hi => hle i (h.cache_lt key i hi))
    (fun i hi => hle i (h.entry_lt key i hi))

/-- An item that is put into a slot was alive before or is a new one. -/
def Puts (s : State) (i : Option Item) (n : Nat) : Prop :=
  ∀ j, i = some j → j.id < n ∧ (s.alive j = true ∨ s.nextId ≤ j.id)

theorem slots_bind (h : Agrees s u) (into : Option String) (i : Option Item) :
    (u.bind into i).slots = (s.bind into i).slots := by
  cases into with
  | none => exact h.slots
  | some name => exact congrArg (Slots.put · name i) h.slots

theorem mem_bind {into : Option String} {i : Option Item} {e : String × Item}
    (he : e ∈ (s.bind into i).slots.entries) : i = some e.2 ∨ e ∈ s.slots.entries := by
  cases into with
  | none => exact Or.inr he
  | some name => exact mem_put he

/-- No item made before comes back to life when a slot is filled. -/
theorem alive_of_bind {into : Option String} {i : Option Item} {n : Nat} (hi : Puts s i n)
    (j : Item) (hj : j.id < s.nextId) (ha : heldIn (s.bind into i).slots j = true) :
    s.alive j = true := by
  obtain ⟨e, he, hid⟩ := heldIn_iff.mp ha
  rcases mem_bind he with hi' | he
  · rcases (hi e.2 hi').2 with h1 | h1
    · obtain ⟨e', he', hid'⟩ := heldIn_iff.mp h1
      exact heldIn_iff.mpr ⟨e', he', by rw [hid', hid]⟩
    · omega
  · exact heldIn_iff.mpr ⟨e, he, hid⟩

theorem slot_lt_bind (h : Agrees s u) {into : Option String} {i : Option Item} {n : Nat}
    (hn : s.nextId ≤ n) (hi : Puts s i n) :
    ∀ e ∈ (s.bind into i).slots.entries, e.2.id < n := by
  intro e he
  rcases mem_bind he with hi' | he
  · exact (hi e.2 hi').1
  · exact Nat.lt_of_lt_of_le (h.slot_lt e he) hn

theorem cache_bind (into : Option String) (i : Option Item) :
    (s.bind into i).cache = s.cache ∧ (u.bind into i).entries = u.entries := by
  cases into <;> exact ⟨rfl, rfl⟩

/-- Filling a slot, with an item that was alive or that is new. -/
theorem bind (h : Agrees s u) (into : Option String) {i : Option Item} {n : Nat}
    (hn : s.nextId ≤ n) (hi : Puts s i n) :
    Agrees { s.bind into i with nextId := n } { u.bind into i with nextId := n } where
  slots := h.slots_bind into i
  nextId := rfl
  lookup key := by
    obtain ⟨hc, he⟩ := cache_bind (s := s) (u := u) into i
    simp only [Unswept.lookup, hc, he]
    refine (h.lookup_of_le (fun j hj => alive_of_bind hi j hj) key).trans ?_
    refine congrArg (Option.filter · _) (funext fun j => ?_)
    simp only [Unswept.alive, heldIn, h.slots_bind]
  slot_lt := h.slot_lt_bind hn hi
  cache_lt key j hj := by
    rw [(cache_bind (u := u) into i).1] at hj
    exact Nat.lt_of_lt_of_le (h.cache_lt key j hj) hn
  entry_lt key j hj := by
    rw [(cache_bind (s := s) into i).2] at hj
    exact Nat.lt_of_lt_of_le (h.entry_lt key j hj) hn

/-- Filling a slot with an item that was alive, or emptying it. -/
theorem bind_old (h : Agrees s u) (into : Option String) {i : Option Item}
    (hi : Puts s i s.nextId) : Agrees (s.bind into i) (u.bind into i) := by
  have hb := h.bind into (Nat.le_refl _) hi
  cases into with
  | none => exact h
  | some name => exact { hb with nextId := h.nextId }

/-- Inserting an item, and putting it into a slot or letting it die. -/
theorem insert (h : Agrees s u) (key : Nat) (into : Option String) {i : Item} {n : Nat}
    (hn : s.nextId ≤ n) (hi : Puts s (some i) n) :
    Agrees
      ({ s with cache := s.cache.insert s.alive key i, nextId := n }.bind into (some i))
      ({ u.insert key i with nextId := n }.bind into (some i)) := by
  have hs : ({ s with cache := s.cache.insert s.alive key i, nextId := n }.bind into (some i)) =
      { s.bind into (some i) with cache := s.cache.insert s.alive key i, nextId := n } := by
    cases into <;> rfl
  have hu : ({ u.insert key i with nextId := n }.bind into (some i)) =
      { u.bind into (some i) with entries := u.entries.insert key i, nextId := n } := by
    cases into <;> rfl
  rw [hs, hu]
  exact
  { slots := h.slots_bind into (some i)
    nextId := rfl
    lookup := fun k => by
      have hle (j : Item) (hj : j.id < s.nextId)
          (ha : heldIn (s.bind into (some i)).slots j = true) : s.alive j = true :=
        alive_of_bind hi j hj ha
      have hc : (s.cache.insert s.alive key i).lookup (heldIn (s.bind into (some i)).slots) k =
          if k = key then (some i).filter (heldIn (s.bind into (some i)).slots)
          else s.cache.lookup (heldIn (s.bind into (some i)).slots) k :=
        WeakCache.lookup_insert_of_le fun k j hj => hle j (h.cache_lt k j hj)
      have ha : Unswept.alive { u.bind into (some i) with
          entries := u.entries.insert key i, nextId := n } =
          heldIn (s.bind into (some i)).slots := by
        funext j
        simp only [Unswept.alive, heldIn, h.slots_bind]
      rw [Unswept.lookup, ha]
      refine hc.trans ?_
      rw [Table.get?_insert, h.lookup_of_le hle]
      split <;> rfl
    slot_lt := h.slot_lt_bind hn hi
    cache_lt := fun k j hj => by
      rcases WeakCache.get?_of_get?_insert hj with ⟨-, rfl⟩ | ⟨-, hj⟩
      · exact (hi j rfl).1
      · exact Nat.lt_of_lt_of_le (h.cache_lt k j hj) hn
    entry_lt := fun k j hj => by
      rcases Table.get?_of_get?_insert hj with ⟨-, rfl⟩ | ⟨-, hj⟩
      · exact (hi j rfl).1
      · exact Nat.lt_of_lt_of_le (h.entry_lt k j hj) hn }

theorem forget (h : Agrees s u) (key : Nat) :
    Agrees { s with cache := s.cache.forget key } (u.forget key) where
  slots := h.slots
  nextId := h.nextId
  lookup k := by
    have hl := h.lookup k
    rw [Unswept.lookup, h.alive_eq] at hl
    refine (WeakCache.lookup_forget s.cache s.alive key k).trans ?_
    have hu : (u.forget key).lookup k = ((u.entries.erase key).get? k).filter u.alive := rfl
    rw [hu, Table.get?_erase, h.alive_eq, hl]
    split <;> rfl
  slot_lt := h.slot_lt
  cache_lt k i hi := h.cache_lt k i (WeakCache.get?_of_get?_forget hi).2
  entry_lt k i hi := h.entry_lt k i (Table.get?_of_get?_erase hi).2

theorem drop (h : Agrees s u) (slot : String) :
    Agrees { s with slots := s.slots.erase slot } { u with slots := u.slots.erase slot } := by
  exact h.bind_old (some slot) (i := none) (fun _ hj => nomatch hj)

/-! ## A step, and a run -/

/-- What a slot holds was made before and is alive. -/
theorem puts_of_get? (h : Agrees s u) {slot : String} {i : Item}
    (hi : s.slots.get? slot = some i) : Puts s (some i) s.nextId := by
  rintro j ⟨⟩
  have hm := Table.mem_of_lookup hi
  exact ⟨h.slot_lt _ hm, Or.inl (heldIn_iff.mpr ⟨_, hm, rfl⟩)⟩

/-- What a look-up sees was made before and is alive. -/
theorem puts_of_lookup (h : Agrees s u) {key : Nat} :
    Puts s (s.cache.lookup s.alive key) s.nextId := by
  intro j hj
  obtain ⟨hc, ha⟩ := Option.filter_eq_some_iff.mp hj
  exact ⟨h.cache_lt key j hc, Or.inl ha⟩

theorem puts_nextItem (data : String) : Puts s (some (s.nextItem data)) (s.nextId + 1) := by
  rintro j ⟨⟩
  exact ⟨Nat.lt_succ_self _, Or.inr (Nat.le_refl _)⟩

theorem withSlot (h : Agrees s u) {slot : String} {P : Answer × State → Answer × Unswept → Prop}
    {f : Item → Answer × State} {g : Item → Answer × Unswept}
    (hn : P (.unbound slot, s) (.unbound slot, u))
    (hs : ∀ i, s.slots.get? slot = some i → P (f i) (g i)) :
    P (s.withSlot slot f) (u.withSlot slot g) := by
  unfold State.withSlot Unswept.withSlot
  rw [h.slots]
  cases hi : s.slots.get? slot with
  | none => exact hn
  | some i => exact hs i hi

theorem churnOne (h : Agrees s u) (first keep : Nat) (into : String) (n : Nat) :
    Agrees (s.churnOne first keep into n) (u.churnOne first keep into n) := by
  simp only [State.churnOne, Unswept.churnOne, h.nextId]
  have hput (into : Option String) := h.insert (first + n) into (Nat.le_succ _)
    (puts_nextItem (toString n))
  split
  · exact hput _
  · exact hput none

theorem churn (h : Agrees s u) (first keep : Nat) (into : String) (ns : List Nat) :
    Agrees (ns.foldl (State.churnOne first keep into) s)
      (ns.foldl (Unswept.churnOne first keep into) u) := by
  induction ns generalizing s u with
  | nil => exact h
  | cons n ns ih => exact ih (h.churnOne first keep into n)

/-- Asking for an item that is made on a miss. The serial number is spent on a hit as well. -/
theorem getOrInsert (h : Agrees s u) (key : Nat) (make : Make) (into : Option String) :
    (s.step (.getOrInsert key make into)).1 = (u.step (.getOrInsert key make into)).1 ∧
      Agrees (s.step (.getOrInsert key make into)).2 (u.step (.getOrInsert key make into)).2 := by
  have hl := h.lookup key
  simp only [State.step, Unswept.step, WeakCache.getOrInsert, ← hl, h.nextId]
  cases hi : s.cache.lookup s.alive key with
  | some i =>
    have hp : Puts s (some i) s.nextId := hi ▸ h.puts_of_lookup
    have hb := h.bind into (Nat.le_succ _) fun j hj => ⟨Nat.lt_succ_of_lt (hp j hj).1, (hp j hj).2⟩
    refine ⟨congrArg (Answer.got false) (h.describe_eq i).symm, ?_⟩
    cases into <;> exact hb
  | none =>
    cases make with
    | fail reason => exact ⟨rfl, h⟩
    | item data =>
      refine ⟨congrArg (Answer.got true) (h.describe_eq _).symm, ?_⟩
      exact h.insert key into (Nat.le_succ _) (puts_nextItem data)

/-- One step of a script gets the same answer from both, and leaves them alike. -/
theorem step (h : Agrees s u) (x : Step) :
    x.observe (s.step x).1 = (u.step x).1 ∧ Agrees (s.step x).2 (u.step x).2 := by
  cases x with
  | new data into =>
    have hb := h.bind (some into) (Nat.le_succ _) (puts_nextItem data)
    refine ⟨rfl, ?_⟩
    simp only [State.step, Unswept.step, h.nextId]
    exact hb
  | clone slot into =>
    refine h.withSlot (P := fun r r' => r.1 = r'.1 ∧ Agrees r.2 r'.2) ⟨rfl, h⟩ fun i hi => ⟨rfl, ?_⟩
    exact h.bind_old (some into) (h.puts_of_get? hi)
  | drop slot =>
    refine ⟨?_, h.drop slot⟩
    simp only [Step.observe, State.step, Unswept.step, h.slots]
  | insert key slot =>
    refine h.withSlot (P := fun r r' => r.1 = r'.1 ∧ Agrees r.2 r'.2) ⟨rfl, h⟩ fun i hi => ⟨rfl, ?_⟩
    have hb := h.insert key none (Nat.le_refl _) (h.puts_of_get? hi)
    exact { hb with nextId := h.nextId }
  | lookup key into =>
    have hl := h.lookup key
    have hd : u.describe = s.describe := funext h.describe_eq
    simp only [Step.observe, State.step, Unswept.step, ← hl, hd, true_and]
    exact h.bind_old into h.puts_of_lookup
  | getOrInsert key make into => exact h.getOrInsert key make into
  | forget key =>
    refine ⟨?_, h.forget key⟩
    simp only [Step.observe, State.step, Unswept.step, WeakCache.contains, h.lookup]
  | contains key =>
    refine ⟨?_, h⟩
    simp only [Step.observe, State.step, Unswept.step, WeakCache.contains, h.lookup]
  | liveCount => exact ⟨congrArg Answer.count h.liveCount_eq, h⟩
  | size => exact ⟨rfl, h⟩
  | churn first count keep into =>
    have hc := h.churn first keep into (List.range count)
    exact ⟨congrArg Answer.count hc.liveCount_eq, hc⟩

theorem run (h : Agrees s u) (xs : List Step) :
    List.zipWith Step.observe xs (s.run xs).1 = (u.run xs).1 ∧
      Agrees (s.run xs).2 (u.run xs).2 := by
  induction xs generalizing s u with
  | nil => exact ⟨rfl, h⟩
  | cons x xs ih =>
    obtain ⟨ha, hs⟩ := h.step x
    obtain ⟨has, hs'⟩ := ih hs
    refine ⟨?_, hs'⟩
    simp only [State.run, Unswept.run, List.zipWith_cons_cons, ha, has]

end Agrees

/-- No script can tell the cache from the map that never sweeps: their answers are the same, but for
numbers of entries, and so are the items in every slot. -/
theorem run_observed (xs : List Step) :
    List.zipWith Step.observe xs (State.run {} xs).1 = (Unswept.run {} xs).1 ∧
      (State.run {} xs).2.slots = (Unswept.run {} xs).2.slots := by
  obtain ⟨ha, hs⟩ := Agrees.start.run xs
  exact ⟨ha, hs.slots.symm⟩

end CacheScript

end CanonIR
