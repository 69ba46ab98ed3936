/-!
# RenderFarm.Fields

Lists of fields in ascending order of their keys, each key once.
-/

namespace RenderFarm
namespace Fields

variable {α : Type}

/-- Sets a field, keeping the keys in ascending order; a present field is replaced. -/
def set (k : String) (a : α) : List (String × α) → List (String × α)
  | [] => [(k, a)]
  | (k', a') :: fs =>
    if k = k' then (k, a) :: fs
    else if k < k' then (k, a) :: (k', a') :: fs
    else (k', a') :: set k a fs

def find? (k : String) : List (String × α) → Option α
  | [] => none
  | (k', a) :: fs => if k' = k then some a else find? k fs

/-- Sets the fields one after the other; of a repeated key the last value counts. -/
def ofList (fs : List (String × α)) : List (String × α) :=
  fs.foldl (fun acc f => set f.1 f.2 acc) []

end Fields
end RenderFarm
