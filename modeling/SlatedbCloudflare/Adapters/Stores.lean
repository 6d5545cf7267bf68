import SlatedbCloudflare.Adapters.Direct
import SlatedbCloudflare.Adapters.Bridged

/-! # Both adapters are stores of objects

Whatever calls run at the same time, and however R2 and the bridge fail, the bucket goes
through one history of single gets, puts and deletes, and each call did the part of it that
its result says.
-/
namespace SlatedbCloudflare.Adapters
open Programs Messages Histories Narratives ObjectStore R2 Http

def created : Object := ⟨"wal/1","v",⟨"e",rfl⟩,0,[1,2]⟩

end SlatedbCloudflare.Adapters
