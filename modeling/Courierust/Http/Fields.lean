import Courierust.Http.Str

/-!
# Header maps

The order-preserving multimap of `courierust_http::header`. A value is a text or octets that are
not UTF-8, which is all that `to_str` tells apart; names are compared without regard to case.
-/

namespace Courierust.Http

open List
open Str (Text eqIgnoreAsciiCase)

inductive HeaderValue where
  | text (s : Text)
  | binary (octets : List UInt8)
  deriving DecidableEq

def HeaderValue.toStr : HeaderValue → Option Text
  | .text s => some s
  | .binary _ => none

/-- `is_valid_field_value` of the octets of a text: those of a character outside ASCII are all
allowed. -/
def isValidFieldText (s : Text) : Bool :=
  s.all fun c => c.toNat = 9 || (0x20 ≤ c.toNat && c.toNat ≤ 0x7e) || 0x80 ≤ c.toNat

theorem isValidFieldText_append (s t : Text) :
    isValidFieldText (s ++ t) = (isValidFieldText s && isValidFieldText t) := all_append

structure HeaderMap where
  entries : List (Text × HeaderValue) := []
  deriving DecidableEq

namespace HeaderMap

def named (name : Text) (field : Text × HeaderValue) : Bool := eqIgnoreAsciiCase field.1 name

def getAll (m : HeaderMap) (name : Text) : List HeaderValue :=
  (m.entries.filter (named name)).map Prod.snd

def get (m : HeaderMap) (name : Text) : Option HeaderValue :=
  (m.entries.find? (named name)).map Prod.snd

/-- `get` followed by `to_str`. -/
def getStr (m : HeaderMap) (name : Text) : Option Text := m.get name >>= HeaderValue.toStr

def containsKey (m : HeaderMap) (name : Text) : Bool := (m.get name).isSome

def append (m : HeaderMap) (name : Text) (value : HeaderValue) : HeaderMap :=
  ⟨m.entries ++ [(name, value)]⟩

def remove (m : HeaderMap) (name : Text) : HeaderMap := ⟨m.entries.filter (!named name ·)⟩

def insert (m : HeaderMap) (name : Text) (value : HeaderValue) : HeaderMap :=
  (m.remove name).append name value

variable (m : HeaderMap) (name other : Text)

theorem get_eq_head? : m.get name = (m.getAll name).head? := by
  rw [get,getAll,head?_map,head?_filter]

theorem getAll_cons (field : Text × HeaderValue) (rest : List (Text × HeaderValue)) :
    getAll ⟨field :: rest⟩ name =
      if named name field then field.2 :: getAll ⟨rest⟩ name else getAll ⟨rest⟩ name := by
  rw [getAll,filter_cons]
  split_ifs <;> rfl

theorem getAll_eq_nil {name : Text} {entries : List (Text × HeaderValue)} :
    getAll ⟨entries⟩ name = [] ↔ entries.any (named name) = false := by
  rw [getAll,map_eq_nil_iff,filter_eq_nil_iff,any_eq_false]

theorem getAll_append (value : HeaderValue) :
    (m.append name value).getAll other =
      m.getAll other ++ if eqIgnoreAsciiCase name other then [value] else [] := by
  rw [getAll,append,filter_append,map_append]
  split_ifs with h
  · rw [filter_cons_of_pos (show named other (name,value) = true from h)]
    rfl
  · rw [filter_cons_of_neg (show ¬ named other (name,value) = true from h)]
    rfl

theorem eqIgnoreAsciiCase_trans {a b c : Text} (hab : eqIgnoreAsciiCase a b = true) :
    eqIgnoreAsciiCase a c = eqIgnoreAsciiCase b c := by
  simp only [eqIgnoreAsciiCase,decide_eq_true_eq] at hab ⊢
  rw [hab]

theorem eqIgnoreAsciiCase_comm (a b : Text) : eqIgnoreAsciiCase a b = eqIgnoreAsciiCase b a := by
  simp only [eqIgnoreAsciiCase,eq_comm]

theorem getAll_remove :
    (m.remove name).getAll other = if eqIgnoreAsciiCase name other then [] else m.getAll other := by
  rw [getAll,remove,filter_filter]
  split_ifs with h
  · rw [map_eq_nil_iff,filter_eq_nil_iff]
    intro field _
    have hsame : named other field = named name field := by
      rw [named,named,eqIgnoreAsciiCase_comm,eqIgnoreAsciiCase_comm field.1 name,
        eqIgnoreAsciiCase_trans h]
    simp [hsame]
  · congr 1
    refine filter_congr fun field _ => ?_
    by_cases hother : named other field
    · have hname : named name field = false := by
        by_contra hname
        rw [Bool.not_eq_false] at hname
        rw [named] at hother hname
        rw [eqIgnoreAsciiCase_trans hname] at hother
        exact h hother
      simp [hother,hname]
    · simp [hother]

theorem getAll_insert (value : HeaderValue) :
    (m.insert name value).getAll other =
      if eqIgnoreAsciiCase name other then [value] else m.getAll other := by
  rw [insert,getAll_append,getAll_remove]
  split_ifs <;> simp

end HeaderMap

end Courierust.Http
