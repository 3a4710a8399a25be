import PubsubVoting.Lib.JsMap
import PubsubVoting.Lib.JsString

/-!
The calls of an LRU store (`storage/types.ts`), and the store that keeps its entries in memory
(`storage/memory.ts`): a map whose insertion order is the order of the last uses.

* `LruCall`, `LruAnswer`: a call of a store, and what it resolves to.
* `MemoryLru`: `makeMemoryLruStorage`.
* `lastSet`: the value that was set last under a key, if no removal followed.
-/

namespace PubsubVoting

variable {V : Type}

/-- A call of an LRU store. -/
inductive LruCall (V : Type)
  | getItem (key : JsString)
  | setItem (key : JsString) (value : V)
  | removeItem (key : JsString)
  | keys
  | clear

/-- What a call resolves to. -/
inductive LruAnswer (V : Type)
  | item (value : Option V)
  | keys (keys : List JsString)
  | done

/-- The same answer; the keys come in any order. -/
inductive LruAnswer.Same : LruAnswer V → LruAnswer V → Prop
  | item (value : Option V) : Same (.item value) (.item value)
  | keys {ks ks' : List JsString} : ks.Perm ks' → Same (.keys ks) (.keys ks')
  | done : Same .done .done

/-- The key that a call makes the most recent one, if it is there. -/
def LruCall.used : LruCall V → Option JsString
  | .getItem key | .setItem key _ => some key
  | .removeItem _ | .keys | .clear => none

/-- What one more call makes of the value that was set last. -/
def LruCall.after (key : JsString) (last : Option V) : LruCall V → Option V
  | .setItem key' value => if key' = key then some value else last
  | .removeItem key' => if key' = key then none else last
  | .clear => none
  | .getItem _ | .keys => last

/-- A call that writes nothing over the value of a key. -/
def LruCall.Spares (key : JsString) (c : LruCall V) : Prop := ∀ last, c.after key last = last

/-- The value that the calls set last under a key. -/
def lastSet (key : JsString) (calls : List (LruCall V)) : Option V :=
  calls.foldl (LruCall.after key) none

namespace MemoryLru

variable (maxItems : ℕ)

/-- `touch` -/
def touch (entries : JsMap JsString V) (key : JsString) (value : V) : JsMap JsString V :=
  (entries.delete key).set key value

/-- A call of the store in memory. -/
def call (entries : JsMap JsString V) : LruCall V → JsMap JsString V × LruAnswer V
  | .getItem key =>
      match entries.get? key with
      | none => (entries, .item none)
      | some value => (touch entries key value, .item (some value))
  | .setItem key value =>
      let touched := touch entries key value
      (if touched.entries.length > maxItems then touched.dropOldest else touched, .done)
  | .removeItem key => (entries.delete key, .done)
  | .keys => (entries, .keys entries.keys)
  | .clear => (∅, .done)

/-- The answers to calls one after the other. -/
def answers (entries : JsMap JsString V) : List (LruCall V) → List (LruAnswer V)
  | [] => []
  | c :: calls => (call maxItems entries c).2 :: answers (call maxItems entries c).1 calls

/-- A touch moves the entry to the end. -/
lemma entries_touch (entries : JsMap JsString V) (key : JsString) (value : V) :
    (touch entries key value).entries = (entries.delete key).entries ++ [(key, value)] := by
  have hnot : key ∉ (entries.delete key).keys := by
    rw [← JsMap.get?_eq_none_iff, JsMap.get?_delete, if_pos rfl]
  rw [touch, JsMap.set, dif_neg hnot]

/-- A touch adds one entry at most. -/
lemma length_touch_le (entries : JsMap JsString V) (key : JsString) (value : V) :
    (touch entries key value).entries.length ≤ entries.entries.length + 1 := by
  rw [entries_touch, List.length_append]
  exact Nat.succ_le_succ (List.length_filter_le _ _)

end MemoryLru

end PubsubVoting
