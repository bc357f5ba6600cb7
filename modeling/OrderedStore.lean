import OrderedStore.Bytes
import OrderedStore.Bytes.Text
import OrderedStore.Checksum
import OrderedStore.CommandLine
import OrderedStore.CommandLine.Options
import OrderedStore.CommandLine.Usage
import OrderedStore.Config
import OrderedStore.Config.Description
import OrderedStore.Decimal
import OrderedStore.Dictionary
import OrderedStore.Engine
import OrderedStore.Engine.Catalog
import OrderedStore.Engine.Memory
import OrderedStore.Engine.Merge
import OrderedStore.Engine.Native
import OrderedStore.Engine.Portable
import OrderedStore.Error
import OrderedStore.Host.Content
import OrderedStore.Host.Disk
import OrderedStore.Host.Extent
import OrderedStore.Host.Memory
import OrderedStore.Host.Output
import OrderedStore.Host.Path
import OrderedStore.Host.Script
import OrderedStore.KeyMap
import OrderedStore.Log.Appender
import OrderedStore.Log.Frame
import OrderedStore.Log.Payload
import OrderedStore.Log.Record
import OrderedStore.Log.Recovery
import OrderedStore.Log.Stream
import OrderedStore.Main
import OrderedStore.Memtable
import OrderedStore.Mutation
import OrderedStore.Proofs.Checksum
import OrderedStore.Proofs.Disk.Sound
import OrderedStore.Proofs.Disk.View
import OrderedStore.Proofs.Engine.Merge
import OrderedStore.Proofs.Engine.Scan
import OrderedStore.Proofs.Host.Calls
import OrderedStore.Proofs.Host.Conduct
import OrderedStore.Proofs.Host.Directories
import OrderedStore.Proofs.Host.Entries
import OrderedStore.Proofs.Host.Errors
import OrderedStore.Proofs.Host.Hindrance
import OrderedStore.Proofs.Host.OpenFiles
import OrderedStore.Proofs.Host.Stored
import OrderedStore.Proofs.Host.Strict
import OrderedStore.Proofs.Log.Canonical
import OrderedStore.Proofs.Log.Carrying
import OrderedStore.Proofs.Log.Chronicle
import OrderedStore.Proofs.Log.Codec
import OrderedStore.Proofs.Log.Damage
import OrderedStore.Proofs.Log.Hindrance
import OrderedStore.Proofs.Log.History
import OrderedStore.Proofs.Log.Parse
import OrderedStore.Proofs.Log.Position
import OrderedStore.Proofs.Log.Reading
import OrderedStore.Proofs.Log.Walking
import OrderedStore.Proofs.Log.Writing
import OrderedStore.Proofs.Memtable
import OrderedStore.Proofs.Portable.Attempt
import OrderedStore.Proofs.Portable.Causes
import OrderedStore.Proofs.Portable.Course
import OrderedStore.Proofs.Portable.Crash
import OrderedStore.Proofs.Portable.Deferral
import OrderedStore.Proofs.Portable.Exclusion
import OrderedStore.Proofs.Portable.Hindered
import OrderedStore.Proofs.Portable.HinderedOpening
import OrderedStore.Proofs.Portable.HinderedRun
import OrderedStore.Proofs.Portable.Invariant
import OrderedStore.Proofs.Portable.Obstruction
import OrderedStore.Proofs.Portable.Opening
import OrderedStore.Proofs.Portable.Oversize
import OrderedStore.Proofs.Portable.PowerLoss
import OrderedStore.Proofs.Portable.Recoverable
import OrderedStore.Proofs.Portable.Session
import OrderedStore.Proofs.Portable.Writing
import OrderedStore.Proofs.Store.Account
import OrderedStore.Proofs.Store.Accounting
import OrderedStore.Proofs.Store.Balance
import OrderedStore.Proofs.Store.Contract
import OrderedStore.Proofs.Store.Handles
import OrderedStore.Proofs.Store.Isolation
import OrderedStore.Proofs.Store.Owing
import OrderedStore.Proofs.Store.Paging
import OrderedStore.Proofs.Store.Reading
import OrderedStore.Proofs.Store.Refusal
import OrderedStore.Proofs.Store.Removal
import OrderedStore.Proofs.Store.Reopening
import OrderedStore.Proofs.Store.Requests
import OrderedStore.Proofs.Store.Walk
import OrderedStore.Proofs.Store.Writers
import OrderedStore.Proofs.Table.Answers
import OrderedStore.Proofs.Table.Consulting
import OrderedStore.Proofs.Table.Damage
import OrderedStore.Proofs.Table.Image
import OrderedStore.Proofs.Table.Parts
import OrderedStore.Proofs.Table.Reading
import OrderedStore.Proofs.Table.Safety
import OrderedStore.Proofs.Table.Writing
import OrderedStore.Proofs.TableStack.Acceptance
import OrderedStore.Proofs.TableStack.Discovery
import OrderedStore.Proofs.TableStack.Flushing
import OrderedStore.Proofs.TableStack.Hindrance
import OrderedStore.Proofs.TableStack.Name
import OrderedStore.Proofs.TableStack.Opening
import OrderedStore.Proofs.TableStack.Recency
import OrderedStore.Proofs.TableStack.Shelf
import OrderedStore.Store
import OrderedStore.Store.Batch
import OrderedStore.Store.Cursor
import OrderedStore.Store.Session
import OrderedStore.Table.Draft
import OrderedStore.Table.Layout
import OrderedStore.Table.View
import OrderedStore.TableStack
import OrderedStore.TableStack.Name
import OrderedStore.Text.Mark
import OrderedStore.Text.Quoted
import OrderedStore.Text.Ranges
import OrderedStore.Text.Shown
import OrderedStore.Text.Unassigned
