import RrLauncher.Rewrite
import RrLauncher.Options
import RrLauncher.Settings.MenuRange
import RrLauncher.Settings.Failure
import RrLauncher.Update.ListTables
import RrLauncher.Update.VersionFormat
import RrLauncher.Update.Selection
import RrLauncher.Update.DeletedList
import RrLauncher.Update.Marker
import RrLauncher.Update.Complete
import RrLauncher.Update.ZipSlip
import RrLauncher.Net.StunBehavior
import RrLauncher.Net.NatTest
import RrLauncher.Loader.Guards
import RrLauncher.Loader.Mem1Tables
import RrLauncher.Loader.Parse
import RrLauncher.Loader.MainDol
import RrLauncher.Loader.SdFileCap
import RrLauncher.Loader.Attributes
import RrLauncher.Loader.FolderPatch
import RrLauncher.Loader.AppleDouble
import RrLauncher.Loader.BinaryLoader
import RrLauncher.Loader.GameDolLoader
import RrLauncher.Net.Discover
import RrLauncher.Net.UpnpLookup
import RrLauncher.Net.ServiceSelection
import RrLauncher.Net.SsdpHeader
import RrLauncher.Net.MappingSuccess
import RrLauncher.Runtime.FastOpen
import RrLauncher.Runtime.OpenFiles
import RrLauncher.Net.ObjectEnd
import RrLauncher.Net.ServerStatusObject
import RrLauncher.Console.AsciiInPlace
import RrLauncher.Console.PrintWrapped
import RrLauncher.Update.Progress
import RrLauncher.Shared.Vec
import RrLauncher.Loader.Hooked
import RrLauncher.Loader.Published
import RrLauncher.Loader.Registrations
import RrLauncher.Loader.RuntimeExt
import RrLauncher.Loader.Launch
import RrLauncher.Loader.PatchEntries
import RrLauncher.Runtime.Disc
import RrLauncher.Runtime.Launched
import RrLauncher.Runtime.DocumentReads
import RrLauncher.Runtime.GameReads
import RrLauncher.Lib.WriteBack
import RrLauncher.Libfat.Cache
import RrLauncher.Libfat.FileRuns
import RrLauncher.Libfat.CacheFaults
